import StructuredProxy.Request.BodySets
import StructuredProxy.Request.Spelling

/-!
# A body without what the path binds

What is left of a body without every entry that names a bound field, each field on the way by either of
its names. `strip_path_fields` follows one spelling of each field, so it may leave more.
-/

namespace StructuredProxy

variable {types : Types}

/-- The JSON without the entries that name the field at the end of the path, each field on the way by
either of its names. -/
def Json.erase : List Field → Json → Json
  | [field], .object entries => .object (entries.filter fun entry => !field.named entry.1)
  | field :: next :: path, .object entries => .object (entries.map fun entry =>
      (entry.1, if field.named entry.1 then entry.2.erase (next :: path) else entry.2))
  | _, json => json

def Json.mentions : List Field → Json → Bool
  | [field], .object entries => entries.any fun entry => field.named entry.1
  | field :: next :: path, .object entries => entries.any fun entry =>
      field.named entry.1 && entry.2.mentions (next :: path)
  | _, _ => false

theorem Json.erase_nil (json : Json) : json.erase [] = json := by
  cases json <;> rfl

theorem Json.erase_of_not_object {json : Json} (path : List Field) (hjson : json.isObject = false) :
    json.erase path = json := by
  cases json with
  | object entries => cases hjson
  | _ => cases path with
    | nil => rfl
    | cons field path => cases path <;> rfl

theorem Json.erase_object (path : List Field) (entries : List (Text × Json)) :
    ∃ (keep : Text → Bool) (change : Text → Json → Json),
      (Json.object entries).erase path =
        .object ((entries.filter fun entry => keep entry.1).map fun entry =>
          (entry.1, change entry.1 entry.2)) ∧
      ∀ key json, change key json = json ∨ ∃ rest, change key json = json.erase rest := by
  cases path with
  | nil => exact ⟨fun _ => true, fun _ json => json, by simp [erase_nil], fun _ _ => Or.inl rfl⟩
  | cons field path =>
      cases path with
      | nil =>
          exact ⟨fun key => !field.named key, fun _ json => json, by simp [erase], fun _ _ => Or.inl rfl⟩
      | cons next path =>
          refine ⟨fun _ => true, fun key json =>
            if field.named key then json.erase (next :: path) else json, by simp [erase], ?_⟩
          intro key json
          by_cases hnamed : field.named key = true
          · exact Or.inr ⟨_, if_pos hnamed⟩
          · exact Or.inl (if_neg hnamed)

theorem Json.mentions_of_erase {p : List Field} : ∀ {json : Json} (q : List Field),
    (json.erase q).mentions p = true → json.mentions p = true := by
  induction p with
  | nil => intro json q h; cases hjson : json.erase q <;> rw [hjson] at h <;> cases h
  | cons field p ih =>
      intro json q h
      cases json with
      | object entries =>
          obtain ⟨keep, change, herase, hchange⟩ := Json.erase_object q entries
          rw [herase] at h
          cases p with
          | nil =>
              rw [mentions, List.any_map] at h
              obtain ⟨entry, hmem, hnamed⟩ := List.any_eq_true.mp h
              exact List.any_eq_true.mpr ⟨entry, (List.mem_filter.mp hmem).1, hnamed⟩
          | cons next p =>
              rw [mentions, List.any_map] at h
              obtain ⟨⟨key, json⟩, hmem, hentry⟩ := List.any_eq_true.mp h
              rw [Function.comp_apply, Bool.and_eq_true] at hentry
              refine List.any_eq_true.mpr ⟨_, (List.mem_filter.mp hmem).1, ?_⟩
              rw [Bool.and_eq_true]
              refine ⟨hentry.1, ?_⟩
              rcases hchange key json with hsame | ⟨rest, hrest⟩
              · simpa only [hsame] using hentry.2
              · exact ih rest (by simpa only [hrest] using hentry.2)
      | _ => rw [Json.erase_of_not_object q rfl] at h; exact h

theorem Json.erase_of_not_mentions {path : List Field} : ∀ {json : Json},
    json.mentions path = false → json.erase path = json := by
  induction path with
  | nil => intro json _; exact erase_nil json
  | cons field path ih =>
      intro json h
      cases json with
      | object entries =>
          cases path with
          | nil =>
              rw [mentions, List.any_eq_false] at h
              rw [erase, List.filter_eq_self.mpr]
              intro entry hentry
              simpa using h entry hentry
          | cons next path =>
              rw [mentions, List.any_eq_false] at h
              have hsame : ∀ entry ∈ entries, (entry.1, if field.named entry.1 then
                  entry.2.erase (next :: path) else entry.2) = entry := by
                rintro ⟨key, json⟩ hentry
                have hbelow := h _ hentry
                cases hnamed : field.named key with
                | true =>
                    rw [if_pos rfl, ih]
                    simpa [hnamed] using hbelow
                | false => rfl
              rw [erase, List.map_congr_left hsame, List.map_id']
      | _ => exact erase_of_not_object _ rfl

/-- The fields of a path below the message the body is read into, none when it does not go below it. -/
def BodyMapping.below : BodyMapping → List Field → List Field
  | .root, path => path
  | .field name, first :: path => if first.name = name then path else []
  | _, _ => []

def pathFields (types : Types) (input : MessageType) (pathParams : List (Text × Text)) :
    List (List Field) :=
  (pathParams.map Prod.fst).filterMap (keyPath types (rootStart input))

def Json.eraseBound (mapping : BodyMapping) (paths : List (List Field)) (body : Json) : Json :=
  paths.foldl (fun body path => body.erase (mapping.below path)) body

end StructuredProxy
