import Mathlib

namespace StackAsm.Keys

variable {α κ : Type} [DecidableEq κ] {key : α → κ} {xs : List α} {k : κ}

theorem find?_eq_some_iff (hkeys : (xs.map key).Nodup) {x : α} :
    xs.find? (fun y => key y = k) = some x ↔ x ∈ xs ∧ key x = k := by
  constructor
  · intro h
    exact ⟨List.mem_of_find?_eq_some h, by simpa using List.find?_some h⟩
  · rintro ⟨hmem, hkey⟩
    cases hfind : xs.find? fun y => key y = k with
    | none =>
        have hother := List.find?_eq_none.mp hfind x hmem
        exact absurd (decide_eq_true hkey) hother
    | some found =>
        have hfoundKey : key found = k := by simpa using List.find?_some hfind
        have hfoundMem := List.mem_of_find?_eq_some hfind
        rw [List.inj_on_of_nodup_map hkeys hfoundMem hmem (hfoundKey.trans hkey.symm)]

theorem find?_eq_none_iff : xs.find? (fun y => key y = k) = none ↔ k ∉ xs.map key := by
  simp [List.find?_eq_none]

end StackAsm.Keys
