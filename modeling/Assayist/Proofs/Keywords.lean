import Assayist.Spec.Contract
import Assayist.Spec.JsonSchema

/-! When a value meets a keyword of the contract's schema. -/

namespace Assayist

open JsonSchema

section Keywords

variable {F : Type} {ps : List (Property F)} {m : List (String × Json F)}

theorem closedObject_intro
    (hrequired : (ps.all fun p => !p.required || (m.lookup p.name).isSome) = true)
    (hfields : ∀ e ∈ m, ∃ p, ps.find? (·.name == e.1) = some p ∧ p.schema e.2) :
    closedObject ps (.object m) :=
  ⟨m, rfl, hrequired, hfields⟩

/-- A property that is there meets its schema. -/
theorem schema_of_mem (h : closedObject ps (.object m)) {k : String} {v : Json F}
    (hmem : (k, v) ∈ m) {p : Property F} (hp : ps.find? (·.name == k) = some p) : p.schema v := by
  obtain ⟨m', hm, _, hfields⟩ := h
  obtain rfl := Json.object.inj hm
  obtain ⟨q, hq, hschema⟩ := hfields (k, v) hmem
  rw [hp, Option.some.injEq] at hq
  rwa [hq]

/-- A property that the schema does not list is one too many. -/
theorem not_closedObject {k : String} {v : Json F} (hmem : (k, v) ∈ m)
    (hnone : ps.find? (·.name == k) = none) : ¬ closedObject ps (.object m) := by
  rintro ⟨m', hm, _, hfields⟩
  obtain rfl := Json.object.inj hm
  obtain ⟨q, hq, _⟩ := hfields (k, v) hmem
  rw [hnone] at hq
  cases hq

theorem forall_mem_optField {k : String} {v : Option (Json F)} {q : String × Json F → Prop} :
    (∀ e ∈ optField k v, q e) ↔ ∀ x, v = some x → q (k, x) := by
  cases v with
  | none => simp [optField]
  | some x => simp [optField]

theorem forall_mem_nil_iff {α : Type} {q : α → Prop} : (∀ e ∈ [], q e) ↔ True := by simp

theorem stringWhere_string {p : String → Prop} {s : String} :
    stringWhere p (.string s : Json F) ↔ p s := by
  apply Iff.intro
  · intro h
    obtain ⟨t, ht, hp⟩ := h
    rwa [Json.string.inj ht]
  · intro h
    exact ⟨s, rfl, h⟩

theorem string_string (s : String) : string (.string s : Json F) := ⟨s, rfl, trivial⟩

theorem boolean_bool (b : Bool) : boolean (.bool b : Json F) := ⟨b, rfl⟩

theorem arrayOf_array {items : JsonSchema F} {xs : List (Json F)} :
    arrayOf items (.array xs) ↔ ∀ x ∈ xs, items x := by
  apply Iff.intro
  · intro h
    obtain ⟨ys, hys, hitems⟩ := h
    rwa [Json.array.inj hys]
  · intro h
    exact ⟨xs, rfl, h⟩

variable [F64 F]

theorem integer_nat {lo : ℕ} {n : UInt64} : integer lo (.nat n : Json F) ↔ lo ≤ n.toNat := by
  unfold integer
  apply Iff.intro
  · rintro (⟨k, hk, hlo⟩ | ⟨x, k, hk, _⟩)
    · rwa [Number.posInt.inj (Json.number.inj hk)]
    · cases Json.number.inj hk
  · intro h
    exact Or.inl ⟨n, rfl, h⟩

end Keywords

end Assayist
