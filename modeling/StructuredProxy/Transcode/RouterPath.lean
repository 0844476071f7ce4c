import StructuredProxy.Transcode.Mounted

/-!
# The segments of a router path

What `MountedPath::new` writes for any template, segment by segment: literals, and captures with the
brace or the brace and star they open with.
-/

namespace StructuredProxy

inductive RouterSegment where
  | literal (text : Text)
  | capture (opening name : Text)
deriving DecidableEq

namespace RouterSegment

def text : RouterSegment → Text
  | literal text => text
  | capture opening name => opening ++ name ++ [closeBrace]

def shape : RouterSegment → Text
  | literal text => text
  | capture opening _ => opening ++ [closeBrace]

def name? : RouterSegment → Option Text
  | literal _ => none
  | capture _ name => some name

end RouterSegment

def Composite.Within (count : Nat) (composite : Composite) : Prop :=
  ∀ position, Part.capture position ∈ composite.parts → position < count

structure Mounting.Writes (m : Mounting) (segments : List RouterSegment) : Prop where
  axum : m.axum = [slash].intercalate (segments.map RouterSegment.text)
  shape : m.shape = [slash].intercalate (segments.map RouterSegment.shape)
  captures : m.captures = segments.filterMap RouterSegment.name?
  unbound : m.unbound.length = m.captures.length
  multiSegment : m.multiSegment.length = m.captures.length
  written : m.written = segments.length
  composites : ∀ composite ∈ m.composites, composite.Within m.captures.length

namespace Mounting.Writes

variable {m : Mounting} {segments : List RouterSegment}

theorem start : Writes {} [] where
  axum := rfl
  shape := rfl
  captures := rfl
  unbound := rfl
  multiSegment := rfl
  written := rfl
  composites := fun _ h => absurd h List.not_mem_nil

theorem pushSegment_join (texts : List Text) {written : Nat} (hwritten : written = texts.length)
    (more : Text) :
    (if 0 < written then [slash].intercalate texts ++ [slash] else [slash].intercalate texts) ++ more =
      [slash].intercalate (texts ++ [more]) := by
  subst hwritten
  cases texts with
  | nil => simp
  | cons first texts =>
      rw [Lib.intercalate_concat [slash] (List.cons_ne_nil _ _)]
      simp

theorem literal (h : m.Writes segments) (word : Text) :
    (m.pushSegment.pushLiteral word).Writes (segments ++ [.literal word]) where
  axum := by
    have hjoin := pushSegment_join (segments.map RouterSegment.text)
      (h.written.trans (List.length_map _).symm) word
    rw [← h.axum] at hjoin
    rw [List.map_append]
    exact hjoin
  shape := by
    have hjoin := pushSegment_join (segments.map RouterSegment.shape)
      (h.written.trans (List.length_map _).symm) word
    rw [← h.shape] at hjoin
    rw [List.map_append]
    exact hjoin
  captures := by
    rw [List.filterMap_append, ← h.captures]
    exact (List.append_nil _).symm
  unbound := h.unbound
  multiSegment := h.multiSegment
  written := by
    rw [List.length_append, ← h.written]
    rfl
  composites := h.composites

theorem capture (h : m.Writes segments) (opening name : Text) (unbound multi : Bool) :
    (m.pushSegment.pushCapture opening name unbound multi).Writes
      (segments ++ [.capture opening name]) where
  axum := by
    have hjoin := pushSegment_join (segments.map RouterSegment.text)
      (h.written.trans (List.length_map _).symm) (opening ++ name ++ [closeBrace])
    rw [← h.axum] at hjoin
    rw [List.map_append]
    simpa [pushCapture, pushSegment, RouterSegment.text] using hjoin
  shape := by
    have hjoin := pushSegment_join (segments.map RouterSegment.shape)
      (h.written.trans (List.length_map _).symm) (opening ++ [closeBrace])
    rw [← h.shape] at hjoin
    rw [List.map_append]
    simpa [pushCapture, pushSegment, RouterSegment.shape] using hjoin
  captures := by
    rw [List.filterMap_append, ← h.captures]
    rfl
  unbound := by simp [pushCapture, pushSegment, h.unbound]
  multiSegment := by simp [pushCapture, pushSegment, h.multiSegment]
  written := by
    rw [List.length_append, ← h.written]
    rfl
  composites := by
    intro composite hcomposite position hposition
    have hlt := h.composites composite hcomposite position hposition
    simp only [pushCapture, pushSegment, List.length_append]
    omega

end Mounting.Writes

/-! ### What a round writes -/

def convertedSegment (segment : Text) (idx : Nat) (isLast : Bool) : RouterSegment :=
  match convertSegment segment idx isLast with
  | .literal text => .literal text
  | .capture name catchAll => .capture (if catchAll then [openBrace, star] else [openBrace]) name

def partSegment (field : Text) (part : Text × Nat) : RouterSegment :=
  if part.1 = wildcard ∨ percent ∈ part.1 then
    .capture [openBrace] (field ++ [dot] ++ decimal part.2)
  else .literal part.1

def roundSegments (last : Nat) (item : Text × Nat) : List RouterSegment :=
  match ((braced item.1).bind (Lib.splitOnce equals)).filter fun bound =>
      item.2 ≠ last && bound.2 ≠ wildcard with
  | some bound =>
      if (bound.2.splitOn slash).contains doubleWildcard then
        [convertedSegment item.1 item.2 (item.2 = last)]
      else (bound.2.splitOn slash).zipIdx.map (partSegment bound.1)
  | none => [convertedSegment item.1 item.2 (item.2 = last)]

namespace Mounting.Writes

variable {m : Mounting} {segments : List RouterSegment}

theorem pushConverted (h : m.Writes segments) (segment : Text) (idx : Nat) (isLast : Bool) :
    (m.pushConverted segment idx isLast).Writes (segments ++ [convertedSegment segment idx isLast]) := by
  unfold Mounting.pushConverted convertedSegment
  cases convertSegment segment idx isLast with
  | literal text => exact h.literal text
  | capture name catchAll => exact h.capture _ _ _ _

theorem withLiterals (h : m.Writes segments) (literals : List (Nat × Text)) :
    ({ m with literals } : Mounting).Writes segments :=
  ⟨h.axum, h.shape, h.captures, h.unbound, h.multiSegment, h.written, h.composites⟩

theorem refuse (h : m.Writes segments) (segment : Text) (before after : String) :
    (m.refuse segment before after).Writes segments :=
  ⟨h.axum, h.shape, h.captures, h.unbound, h.multiSegment, h.written, h.composites⟩

theorem note (h : m.Writes segments) (last : Nat) (segment : Text) (idx : Nat) :
    (m.note last segment idx).Writes segments := by
  have hlast : ∀ lastSegment, ({ m with lastSegment } : Mounting).Writes segments := fun _ =>
    ⟨h.axum, h.shape, h.captures, h.unbound, h.multiSegment, h.written, h.composites⟩
  unfold Mounting.note
  dsimp only
  split <;> split <;> split <;>
    first
      | exact h
      | exact hlast _
      | exact (hlast _).refuse _ _ _

theorem pushPart (h : m.Writes segments) {parts : List Part}
    (hparts : ∀ position, Part.capture position ∈ parts → position < m.captures.length)
    (field : Text) (multi : Bool) (part : Text × Nat) :
    (Mounting.pushPart field multi (m, parts) part).1.Writes (segments ++ [partSegment field part]) ∧
      ∀ position, Part.capture position ∈ (Mounting.pushPart field multi (m, parts) part).2 →
        position < (Mounting.pushPart field multi (m, parts) part).1.captures.length := by
  obtain ⟨text, k⟩ := part
  by_cases hpercent : percent ∈ text
  · have hsegment : partSegment field (text, k) =
        .capture [openBrace] (field ++ [dot] ++ decimal k) := if_pos (Or.inr hpercent)
    rw [hsegment]
    refine ⟨?_, fun position hposition => ?_⟩
    · simp only [Mounting.pushPart, List.contains_iff_mem.mpr hpercent, Bool.or_true, if_true]
      exact (h.capture [openBrace] (field ++ [dot] ++ decimal k) true multi).withLiterals _
    · simp [Mounting.pushPart, hpercent, Mounting.pushCapture, Mounting.pushSegment] at hposition ⊢
      rcases hposition with hposition | rfl
      · have hlt := hparts position hposition
        omega
      · omega
  · by_cases hstar : text = wildcard
    · have hsegment : partSegment field (text, k) =
          .capture [openBrace] (field ++ [dot] ++ decimal k) := if_pos (Or.inl hstar)
      rw [hsegment]
      refine ⟨?_, fun position hposition => ?_⟩
      · simpa [Mounting.pushPart, hpercent, hstar, wildcard, show percent ≠ star by decide] using
          h.capture [openBrace] (field ++ [dot] ++ decimal k) true multi
      · simp [Mounting.pushPart, hstar, wildcard, show percent ≠ star by decide,
          Mounting.pushCapture, Mounting.pushSegment] at hposition ⊢
        rcases hposition with hposition | rfl
        · have hlt := hparts position hposition
          omega
        · omega
    · have hsegment : partSegment field (text, k) = .literal text :=
        if_neg (not_or.mpr ⟨hstar, hpercent⟩)
      rw [hsegment]
      refine ⟨?_, fun position hposition => ?_⟩
      · simpa [Mounting.pushPart, hpercent, hstar] using h.literal text
      · simp [Mounting.pushPart, hpercent, hstar, Mounting.pushLiteral, Mounting.pushSegment]
          at hposition ⊢
        exact hparts position hposition

theorem pushParts (field : Text) (multi : Bool) (items : List (Text × Nat)) :
    ∀ {m : Mounting} {segments : List RouterSegment} {parts : List Part}, m.Writes segments →
      (∀ position, Part.capture position ∈ parts → position < m.captures.length) →
      (items.foldl (Mounting.pushPart field multi) (m, parts)).1.Writes
          (segments ++ items.map (partSegment field)) ∧
        ∀ position,
          Part.capture position ∈ (items.foldl (Mounting.pushPart field multi) (m, parts)).2 →
          position < (items.foldl (Mounting.pushPart field multi) (m, parts)).1.captures.length := by
  induction items with
  | nil =>
      intro m segments parts h hparts
      exact ⟨by rwa [List.map_nil, List.append_nil], hparts⟩
  | cons item items ih =>
      intro m segments parts h hparts
      obtain ⟨hwrites, hnext⟩ := h.pushPart hparts field multi item
      have hrest := ih hwrites hnext
      rwa [List.append_assoc, List.singleton_append, ← List.map_cons] at hrest

theorem pushComposite (h : m.Writes segments) (field template : Text) :
    (m.pushComposite field template).Writes
      (segments ++ (template.splitOn slash).zipIdx.map (partSegment field)) := by
  have hnone : ∀ position, Part.capture position ∈ [] → position < m.captures.length :=
    fun _ hposition => absurd hposition List.not_mem_nil
  obtain ⟨hwrites, hparts⟩ := pushParts field (template.contains slash)
    (template.splitOn slash).zipIdx h hnone
  refine ⟨hwrites.axum, hwrites.shape, hwrites.captures, hwrites.unbound, hwrites.multiSegment,
    hwrites.written, fun composite hcomposite => ?_⟩
  rcases List.mem_append.mp hcomposite with hcomposite | hcomposite
  · exact hwrites.composites composite hcomposite
  · rw [List.mem_singleton.mp hcomposite]
    exact hparts

theorem step (h : m.Writes segments) (last : Nat) (item : Text × Nat) :
    (Mounting.step last m item).Writes (segments ++ roundSegments last item) := by
  obtain ⟨segment, idx⟩ := item
  have hnote := h.note last segment idx
  unfold Mounting.step roundSegments
  cases hbound : ((braced segment).bind (Lib.splitOnce equals)).filter fun bound =>
      idx ≠ last && bound.2 ≠ wildcard with
  | some bound =>
      simp only [hbound]
      split
      · exact (hnote.refuse _ _ _).pushConverted _ _ _
      · exact hnote.pushComposite _ _
  | none =>
      simp only [hbound]
      split
      · exact (hnote.refuse _ _ _).pushConverted _ _ _
      · exact hnote.pushConverted _ _ _

theorem foldl (last : Nat) (items : List (Text × Nat)) :
    ∀ {m : Mounting} {segments : List RouterSegment}, m.Writes segments →
      (items.foldl (Mounting.step last) m).Writes (segments ++ items.flatMap (roundSegments last)) := by
  induction items with
  | nil =>
      intro m segments h
      rwa [List.flatMap_nil, List.append_nil]
  | cons item items ih =>
      intro m segments h
      have hrest := ih (h.step last item)
      rwa [List.append_assoc, ← List.flatMap_cons] at hrest

end Mounting.Writes

end StructuredProxy
