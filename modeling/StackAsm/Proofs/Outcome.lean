import Mathlib

namespace StackAsm.Outcome

variable {α β ε δ : Type}

theorem map_eq_ok_iff {f : α → β} {outcome : Except ε α} {b : β} :
    outcome.map f = .ok b ↔ ∃ a, outcome = .ok a ∧ f a = b := by
  cases outcome <;> simp [Except.map]

theorem map_eq_error_iff {f : α → β} {outcome : Except ε α} {fault : ε} :
    outcome.map f = .error fault ↔ outcome = .error fault := by
  cases outcome <;> simp [Except.map]

theorem mapError_eq_ok_iff {f : ε → δ} {outcome : Except ε α} {a : α} :
    outcome.mapError f = .ok a ↔ outcome = .ok a := by
  cases outcome <;> simp [Except.mapError]

theorem mapError_eq_error_iff {f : ε → δ} {outcome : Except ε α} {fault : δ} :
    outcome.mapError f = .error fault ↔ ∃ cause, outcome = .error cause ∧ f cause = fault := by
  cases outcome <;> simp [Except.mapError]

theorem bind_eq_ok_iff {f : α → Except ε β} {outcome : Except ε α} {b : β} :
    outcome >>= f = .ok b ↔ ∃ a, outcome = .ok a ∧ f a = .ok b := by
  cases outcome <;> simp [bind, Except.bind]

theorem isSome_toOption_iff {outcome : Except ε α} :
    outcome.toOption.isSome = true ↔ ∃ a, outcome = .ok a := by
  cases outcome <;> simp [Except.toOption]

theorem mapError_bind {g : ε → δ} {f : α → Except ε β} {outcome : Except ε α} :
    (outcome >>= f).mapError g = outcome.mapError g >>= fun a => (f a).mapError g := by
  cases outcome <;> rfl

theorem mapError_map {g : ε → δ} {f : α → β} {outcome : Except ε α} :
    (outcome.map f).mapError g = (outcome.mapError g).map f := by
  cases outcome <;> rfl

theorem mapError_mapM {g : ε → δ} {f : α → Except ε β} {xs : List α} :
    (xs.mapM f).mapError g = xs.mapM fun x => (f x).mapError g := by
  induction xs with
  | nil => rfl
  | cons x xs ih =>
      rw [List.mapM_cons, List.mapM_cons, mapError_bind, ← ih]
      congr 1
      funext y
      rw [mapError_bind]
      rfl

theorem mapM_eq_ok_iff {f : α → Except ε β} {xs : List α} {ys : List β} :
    xs.mapM f = .ok ys ↔ List.Forall₂ (fun x y => f x = .ok y) xs ys := by
  induction xs generalizing ys with
  | nil =>
      rw [List.mapM_nil, List.forall₂_nil_left_iff]
      exact ⟨fun h => (Except.ok.inj h).symm, fun h => by rw [h]; rfl⟩
  | cons x xs ih =>
      rw [List.mapM_cons, List.forall₂_cons_left_iff]
      cases hx : f x with
      | error fault =>
          constructor
          · intro h
            cases h
          · rintro ⟨y, zs, hy, -, -⟩
            cases hy
      | ok y =>
          cases hxs : xs.mapM f with
          | error fault =>
              constructor
              · intro h
                cases h
              · rintro ⟨_, zs, -, hzs, -⟩
                rw [← ih, hxs] at hzs
                cases hzs
          | ok zs =>
              constructor
              · intro h
                exact ⟨y, zs, rfl, ih.mp hxs, (Except.ok.inj h).symm⟩
              · rintro ⟨_, _, hy, hzs, rfl⟩
                cases Except.ok.inj hy
                rw [← ih, hxs] at hzs
                cases Except.ok.inj hzs
                rfl

theorem exists_of_forall₂ {R : α → β → Prop} {xs : List α} {ys : List β}
    (h : List.Forall₂ R xs ys) {x : α} (hx : x ∈ xs) : ∃ y ∈ ys, R x y := by
  induction h with
  | nil => cases hx
  | cons hhead _ ih =>
      rcases List.mem_cons.mp hx with rfl | hx
      · exact ⟨_, List.mem_cons_self, hhead⟩
      · obtain ⟨y, hy, hxy⟩ := ih hx
        exact ⟨y, List.mem_cons_of_mem _ hy, hxy⟩

theorem exists_append_of_forall₂ {R : α → β → Prop} {xs ys : List α} {zs : List β}
    (h : List.Forall₂ R (xs ++ ys) zs) :
    ∃ us vs, zs = us ++ vs ∧ List.Forall₂ R xs us ∧ List.Forall₂ R ys vs :=
  ⟨zs.take xs.length, zs.drop xs.length, (List.take_append_drop _ zs).symm,
    (List.forall₂_take_append _ xs ys h.flip).flip, (List.forall₂_drop_append _ xs ys h.flip).flip⟩

theorem eq_iff_forall₂ {R : α → δ → Prop} {S : β → δ → Prop} {T : α → β → Prop} {xs : List α}
    {ys : List β} {zs ws : List δ} (hT : ∀ x y z w, R x z → S y w → (z = w ↔ T x y))
    (hxs : List.Forall₂ R xs zs) (hys : List.Forall₂ S ys ws) :
    zs = ws ↔ List.Forall₂ T xs ys := by
  induction hxs generalizing ys ws with
  | nil => cases hys <;> simp
  | cons hx _ ih =>
      cases hys with
      | nil => simp
      | cons hy hys => rw [List.cons.injEq, List.forall₂_cons, hT _ _ _ _ hx hy, ih hys]

theorem exists_of_mapM_eq_ok {f : α → Except ε β} {xs : List α} {ys : List β}
    (h : xs.mapM f = .ok ys) {x : α} (hx : x ∈ xs) : ∃ y ∈ ys, f x = .ok y :=
  exists_of_forall₂ (mapM_eq_ok_iff.mp h) hx

theorem exists_mapM_eq_ok_iff {f : α → Except ε β} {xs : List α} :
    (∃ ys, xs.mapM f = .ok ys) ↔ ∀ x ∈ xs, ∃ y, f x = .ok y := by
  simp only [mapM_eq_ok_iff]
  induction xs with
  | nil => simp
  | cons x xs ih =>
      simp only [List.forall₂_cons_left_iff, List.forall_mem_cons, ← ih]
      constructor
      · rintro ⟨_, y, ys, hy, hys, -⟩
        exact ⟨⟨y, hy⟩, ys, hys⟩
      · rintro ⟨⟨y, hy⟩, ys, hys⟩
        exact ⟨y :: ys, y, ys, hy, hys, rfl⟩

theorem mapM_eq_error_iff {f : α → Except ε β} {xs : List α} {fault : ε} :
    xs.mapM f = .error fault ↔
      ∃ before x after, xs = before ++ x :: after ∧
        (∀ y ∈ before, ∃ z, f y = .ok z) ∧ f x = .error fault := by
  constructor
  · intro h
    induction xs with
    | nil => cases h
    | cons x xs ih =>
        rw [List.mapM_cons] at h
        cases hx : f x with
        | error cause =>
            rw [hx] at h
            cases h
            exact ⟨[], x, xs, rfl, by simp, hx⟩
        | ok y =>
            cases hxs : xs.mapM f with
            | ok ys =>
                rw [hx, hxs] at h
                cases h
            | error cause =>
                rw [hx, hxs] at h
                cases h
                obtain ⟨before, z, after, rfl, hbefore, hz⟩ := ih hxs
                refine ⟨x :: before, z, after, rfl, ?_, hz⟩
                exact List.forall_mem_cons.mpr ⟨⟨y, hx⟩, hbefore⟩
  · rintro ⟨before, x, after, rfl, hbefore, hx⟩
    obtain ⟨ys, hys⟩ := exists_mapM_eq_ok_iff.mpr hbefore
    rw [List.mapM_append, hys, List.mapM_cons, hx]
    rfl

theorem mapM_congr {f g : α → Except ε β} {xs : List α} (h : ∀ x ∈ xs, f x = g x) :
    xs.mapM f = xs.mapM g := by
  induction xs with
  | nil => rfl
  | cons x xs ih =>
      obtain ⟨hx, hxs⟩ := List.forall_mem_cons.mp h
      rw [List.mapM_cons, List.mapM_cons, hx, ih hxs]

theorem eq_ok_iff_cases {ε' : Type} {outcome : Except ε Unit} {other : Except ε' Unit}
    (h : outcome = .ok () ↔ other = .ok ()) :
    (outcome = .ok () ∧ other = .ok ()) ∨
      ∃ fault otherFault, outcome = .error fault ∧ other = .error otherFault := by
  cases outcome with
  | ok => exact .inl ⟨rfl, h.mp rfl⟩
  | error fault =>
      cases other with
      | ok => cases h.mpr rfl
      | error otherFault => exact .inr ⟨fault, otherFault, rfl, rfl⟩

end StackAsm.Outcome
