import StructuredProxy.Transcode.Table

/-!
# Path templates as the grammar has them

A template of `google.api.http` as a value: segments that are literals, `*`, `**` or variables, a
variable with or without a field template, and a custom verb after a variable or a wildcard. Its text
is what a rule holds, its reading which requests it is meant to match. A verb after a literal is part
of the literal.
-/

namespace StructuredProxy

def isWord (text : Text) : Bool :=
  text.all fun byte => byte ≠ slash && byte ≠ openBrace && byte ≠ closeBrace

inductive Piece where
  | one
  | rest
  | literal (text : Text)
deriving DecidableEq

namespace Piece

def text : Piece → Text
  | one => wildcard
  | rest => doubleWildcard
  | literal text => text

def valid : Piece → Bool
  | literal text => !text.isEmpty && isWord text && text.head? ≠ some star
  | _ => true

end Piece

/-- One segment of a template: a literal or wildcard, `{field}` or `{field=pieces}`. -/
inductive TemplateSegment where
  | literal (text : Text)
  | one
  | rest
  | capture (field : Text)
  | bound (field : Text) (pieces : List Piece)
deriving DecidableEq

namespace TemplateSegment

def inner (field : Text) (pieces : List Piece) : Text :=
  field ++ equals :: [slash].intercalate (pieces.map Piece.text)

def text : TemplateSegment → Text
  | literal text => text
  | one => wildcard
  | rest => doubleWildcard
  | capture field => openBrace :: field ++ [closeBrace]
  | bound field pieces => openBrace :: inner field pieces ++ [closeBrace]

def isFieldPath (field : Text) : Bool :=
  isWord field && !field.contains equals && field.head? ≠ some star

def valid : TemplateSegment → Bool
  | literal text => isWord text && text.head? ≠ some star
  | capture field => isFieldPath field
  | bound field pieces => isFieldPath field && !pieces.isEmpty && pieces.all Piece.valid
  | _ => true

def isLiteral : TemplateSegment → Bool
  | literal _ => true
  | _ => false

end TemplateSegment

structure HttpTemplate where
  front : List TemplateSegment
  last : TemplateSegment
  verb : Option Text
  front_valid : front.all TemplateSegment.valid = true
  last_valid : last.valid = true
  verb_valid : verb.all (fun verb => !verb.isEmpty && isWord verb && !last.isLiteral) = true

/-! ### The reading of a template -/

inductive Item where
  | exact (text : Text)
  | octets (text : Text)
  | any
deriving DecidableEq

def Item.fits : Item → Text → Bool
  | exact text, segment => text = segment
  | octets text, segment => normalizeEscapes segment = normalizeEscapes text
  | any, _ => true

def Piece.item : Piece → Item
  | literal text => .octets text
  | _ => .any

/-- The segments of a request that a field template takes up to its end: a literal up to the case of
its escapes, `*` a non-empty one, a last `**` any number. -/
def fitsPieces : List Piece → List Text → Bool
  | [], segments => segments.isEmpty
  | [.rest], _ => true
  | .literal text :: pieces, segment :: segments =>
      normalizeEscapes segment = normalizeEscapes text && fitsPieces pieces segments
  | .one :: pieces, segment :: segments => !segment.isEmpty && fitsPieces pieces segments
  | _, _ => false

namespace TemplateSegment

def items : TemplateSegment → List Item
  | literal text => [.exact text]
  | bound _ pieces => pieces.map Piece.item
  | _ => [.any]

/-- Whether the last segment takes what is left of a request, a verb after it or not. -/
def ends (emptyLast verb : Bool) : TemplateSegment → List Text → Bool
  | literal text, segments => segments = [text]
  | rest, segments | bound _ [.rest], segments => !segments.isEmpty && (segments ≠ [[]] || verb)
  | one, segments | capture _, segments | bound _ [.one], segments =>
      match segments with
      | [segment] => !segment.isEmpty || (!verb && emptyLast)
      | _ => false
  | bound _ pieces, segments => fitsPieces pieces segments

end TemplateSegment

/-- The segments of a request with `verb` cut off the last one at its first colon, none when the last
one does not end in it. -/
def cutVerb (verb : Option Text) (segments : List Text) : Option (List Text) :=
  match verb with
  | none => some segments
  | some verb =>
      ((Lib.splitOnce colon (segments.getLastD [])).filter fun parts =>
        normalizeEscapes (colon :: parts.2) = normalizeEscapes (colon :: verb)).map fun parts =>
          segments.dropLast ++ [parts.1]

namespace HttpTemplate

variable (template : HttpTemplate)

def segments : List TemplateSegment := template.front ++ [template.last]

def verbText : Text :=
  match template.verb with
  | none => []
  | some verb => colon :: verb

def base : Text := slash :: [slash].intercalate (template.segments.map TemplateSegment.text)

def text : Text := template.base ++ template.verbText

def items : List Item := template.front.flatMap TemplateSegment.items

/-- Whether a request path is one the template is meant to match. -/
def reads (emptyLast : Bool) (path : Text) : Bool :=
  match (stripPrefix slash path).bind fun rest => cutVerb template.verb (rest.splitOn slash) with
  | none => false
  | some segments =>
      template.items.length ≤ segments.length &&
        (template.items.zip segments).all (fun (item, segment) => item.fits segment) &&
        template.last.ends emptyLast template.verb.isSome (segments.drop template.items.length)

end HttpTemplate

end StructuredProxy
