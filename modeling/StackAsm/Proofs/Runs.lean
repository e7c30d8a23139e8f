import Mathlib
import StackAsm.Host.Dialogue

/-!
Runs of dialogues in surroundings that may answer a request in several ways. A run can be looked at
after any number of requests, so what is shown of all runs holds at every moment at which a program
may be cut off.
-/

namespace StackAsm.Dialogue

variable {Request : Type} {Reply : Request → Type} {α β σ : Type}

/-- From a state, with the requests and replies of the list, a dialogue comes to a later state, and
what is left of it. The surroundings allow certain replies and states to follow a request. -/
inductive Run (allows : σ → (request : Request) → Reply request → σ → Prop) :
    σ → Dialogue Request Reply α → List (Σ request, Reply request) → σ →
      Dialogue Request Reply α → Prop where
  | here (state : σ) (dialogue : Dialogue Request Reply α) :
      Run allows state dialogue [] state dialogue
  | further {state after later : σ} {request : Request} {reply : Reply request}
      {next : Reply request → Dialogue Request Reply α}
      {exchanges : List (Σ request, Reply request)} {rest : Dialogue Request Reply α}
      (hreply : allows state request reply after)
      (hnext : Run allows after (next reply) exchanges later rest) :
      Run allows state (ask request next) (⟨request, reply⟩ :: exchanges) later rest

variable {allows : σ → (request : Request) → Reply request → σ → Prop} {state later : σ}
  {exchanges : List (Σ request, Reply request)}

theorem run_pure_iff {result : α} {rest : Dialogue Request Reply α} :
    Run allows state (pure result) exchanges later rest ↔
      exchanges = [] ∧ later = state ∧ rest = pure result := by
  constructor
  · intro h
    cases h
    exact ⟨rfl, rfl, rfl⟩
  · rintro ⟨rfl, rfl, rfl⟩
    exact .here _ _

theorem bind_eq_pure_iff {dialogue : Dialogue Request Reply α}
    {next : α → Dialogue Request Reply β} {result : β} :
    dialogue >>= next = pure result ↔ ∃ a, dialogue = pure a ∧ next a = pure result := by
  cases dialogue with
  | done a =>
      constructor
      · intro h
        exact ⟨a, rfl, h⟩
      · rintro ⟨_, h, hnext⟩
        cases h
        exact hnext
  | ask request continuation =>
      constructor
      · intro h
        cases h
      · rintro ⟨_, h, -⟩
        cases h

/-- A run of a dialogue and what follows it either has not left the dialogue, or goes through its
end. -/
theorem run_bind_iff {dialogue : Dialogue Request Reply α} {next : α → Dialogue Request Reply β}
    {rest : Dialogue Request Reply β} :
    Run allows state (dialogue >>= next) exchanges later rest ↔
      (∃ remaining, Run allows state dialogue exchanges later remaining ∧
        rest = remaining >>= next) ∨
      ∃ result before between behind, exchanges = before ++ behind ∧
        Run allows state dialogue before between (pure result) ∧
          Run allows between (next result) behind later rest := by
  constructor
  · intro h
    induction dialogue generalizing state exchanges with
    | done result => exact .inr ⟨result, [], state, exchanges, rfl, .here _ _, h⟩
    | ask request continuation ih =>
        cases h with
        | here => exact .inl ⟨_, .here _ _, rfl⟩
        | further hreply hnext =>
            rcases ih _ hnext with ⟨remaining, hrun, rfl⟩ |
              ⟨result, before, between, behind, rfl, hrun, hbehind⟩
            · exact .inl ⟨remaining, .further hreply hrun, rfl⟩
            · exact .inr ⟨result, _, between, behind, rfl, .further hreply hrun, hbehind⟩
  · rintro (⟨remaining, hrun, rfl⟩ | ⟨result, before, between, behind, rfl, hrun, hbehind⟩)
    · induction hrun with
      | here => exact .here _ _
      | further hreply _ ih => exact .further hreply ih
    · generalize hend : (pure result : Dialogue Request Reply α) = ended at hrun
      induction hrun with
      | here =>
          subst hend
          exact hbehind
      | further hreply _ ih => exact .further hreply (ih hbehind hend)

theorem Run.of_forall {dialogue rest : Dialogue Request Reply α}
    {kind : (request : Request) → Reply request → Prop}
    (h : Run allows state dialogue exchanges later rest)
    (hkind : ∀ exchange ∈ exchanges, kind exchange.1 exchange.2) :
    Run (fun _ request reply _ => kind request reply) state dialogue exchanges later rest := by
  induction h with
  | here state dialogue => exact .here state dialogue
  | further hreply hnext ih =>
      obtain ⟨hfirst, hrest⟩ := List.forall_mem_cons.mp hkind
      exact .further hfirst (ih hrest)

/-- Surroundings that are a value, and do only what is allowed, run a dialogue to its end. -/
theorem exists_run_of_simulate {ρ : Type} {answer : ρ → (request : Request) → Reply request × ρ}
    (shows : ρ → σ → Prop)
    (hanswer : ∀ inner state request, shows inner state →
      ∃ after, allows state request (answer inner request).1 after ∧
        shows (answer inner request).2 after)
    (dialogue : Dialogue Request Reply α) {inner : ρ} (h : shows inner state) :
    ∃ exchanges later,
      Run allows state dialogue exchanges later (pure (dialogue.simulate answer inner).1) ∧
        shows (dialogue.simulate answer inner).2 later := by
  induction dialogue generalizing inner state with
  | done result => exact ⟨[], state, .here _ _, h⟩
  | ask request next ih =>
      obtain ⟨after, hreply, hafter⟩ := hanswer inner state request h
      obtain ⟨exchanges, later, hrun, hlater⟩ := ih _ hafter
      exact ⟨_, later, .further hreply hrun, hlater⟩

/-- All that the surroundings allow to become of a dialogue: at every moment the state is as it
always should be, and at the end also the result is right. -/
def Ensures (allows : σ → (request : Request) → Reply request → σ → Prop) (state : σ)
    (dialogue : Dialogue Request Reply α) (always : σ → Prop) (right : α → σ → Prop) : Prop :=
  ∀ exchanges later rest, Run allows state dialogue exchanges later rest →
    always later ∧ ∀ result, rest = pure result → right result later

namespace Ensures

variable {always : σ → Prop} {right : α → σ → Prop}

theorem of_pure {result : α} (halways : always state) (hright : right result state) :
    Ensures allows state (pure result) always right := by
  intro exchanges later rest hrun
  obtain ⟨rfl, rfl, rfl⟩ := run_pure_iff.mp hrun
  refine ⟨halways, ?_⟩
  intro result hresult
  cases hresult
  exact hright

theorem of_ask {request : Request} {next : Reply request → Dialogue Request Reply α}
    (halways : always state)
    (hnext : ∀ reply after, allows state request reply after →
      Ensures allows after (next reply) always right) :
    Ensures allows state (ask request next) always right := by
  intro exchanges later rest hrun
  cases hrun with
  | here =>
      refine ⟨halways, ?_⟩
      intro result hresult
      cases hresult
  | further hreply hrun => exact hnext _ _ hreply _ _ _ hrun

theorem of_perform {request : Request} {right : Reply request → σ → Prop} (halways : always state)
    (hreply : ∀ reply after, allows state request reply after → always after ∧ right reply after) :
    Ensures allows state (perform request) always right :=
  of_ask halways fun reply after h => of_pure (hreply reply after h).1 (hreply reply after h).2

theorem bind {dialogue : Dialogue Request Reply α} {next : α → Dialogue Request Reply β}
    {right : β → σ → Prop} (between : α → σ → Prop)
    (hdialogue : Ensures allows state dialogue always between)
    (hnext : ∀ result after, always after → between result after →
      Ensures allows after (next result) always right) :
    Ensures allows state (dialogue >>= next) always right := by
  intro exchanges later rest hall
  rcases run_bind_iff.mp hall with ⟨remaining, hrun, rfl⟩ |
    ⟨result, before, after, behind, rfl, hrun, hbehind⟩
  · obtain ⟨halways, hbetween⟩ := hdialogue _ _ _ hrun
    refine ⟨halways, ?_⟩
    intro result hresult
    obtain ⟨a, rfl, hnextResult⟩ := bind_eq_pure_iff.mp hresult
    exact (hnext a later halways (hbetween a rfl) _ _ _ (.here _ _)).2 result hnextResult
  · obtain ⟨halways, hbetween⟩ := hdialogue _ _ _ hrun
    exact hnext result after halways (hbetween result rfl) _ _ _ hbehind

theorem and {dialogue : Dialogue Request Reply α} {alsoAlways : σ → Prop}
    {alsoRight : α → σ → Prop} (h : Ensures allows state dialogue always right)
    (halso : Ensures allows state dialogue alsoAlways alsoRight) :
    Ensures allows state dialogue (fun later => always later ∧ alsoAlways later)
      fun result later => right result later ∧ alsoRight result later := by
  intro exchanges later rest hrun
  obtain ⟨hlater, hresult⟩ := h _ _ _ hrun
  obtain ⟨halsoLater, halsoResult⟩ := halso _ _ _ hrun
  exact ⟨⟨hlater, halsoLater⟩, fun result hrest => ⟨hresult result hrest, halsoResult result hrest⟩⟩

theorem mono {weaker : σ → Prop} {weakerRight : α → σ → Prop}
    {dialogue : Dialogue Request Reply α} (h : Ensures allows state dialogue always right)
    (halways : ∀ later, always later → weaker later)
    (hright : ∀ result later, always later → right result later → weakerRight result later) :
    Ensures allows state dialogue weaker weakerRight := by
  intro exchanges later rest hrun
  obtain ⟨hlater, hresult⟩ := h _ _ _ hrun
  exact ⟨halways _ hlater, fun result hrest => hright _ _ hlater (hresult result hrest)⟩

end Ensures

/-- All requests that a dialogue can come to are of a kind, whatever the replies. -/
def Asks (kind : Request → Prop) : Dialogue Request Reply α → Prop
  | done _ => True
  | ask request next => kind request ∧ ∀ reply, (next reply).Asks kind

namespace Asks

variable {kind : Request → Prop}

theorem of_pure {result : α} : Asks kind (pure result : Dialogue Request Reply α) :=
  trivial

theorem of_perform {request : Request} (h : kind request) :
    Asks kind (perform request : Dialogue Request Reply (Reply request)) :=
  ⟨h, fun _ => trivial⟩

theorem bind {dialogue : Dialogue Request Reply α} {next : α → Dialogue Request Reply β}
    (hdialogue : dialogue.Asks kind) (hnext : ∀ result, (next result).Asks kind) :
    (dialogue >>= next).Asks kind := by
  induction dialogue with
  | done result => exact hnext result
  | ask request continuation ih => exact ⟨hdialogue.1, fun reply => ih reply (hdialogue.2 reply)⟩

theorem mono {wider : Request → Prop} {dialogue : Dialogue Request Reply α}
    (h : dialogue.Asks kind) (hkind : ∀ request, kind request → wider request) :
    dialogue.Asks wider := by
  induction dialogue with
  | done result => trivial
  | ask request next ih => exact ⟨hkind request h.1, fun reply => ih reply (h.2 reply)⟩

/-- What every single request of the kind preserves is preserved by the dialogue. -/
theorem ensures {dialogue : Dialogue Request Reply α} {always : σ → Prop}
    (h : dialogue.Asks kind)
    (hkept : ∀ state request reply after, kind request → always state →
      allows state request reply after → always after)
    (hstate : always state) : Ensures allows state dialogue always fun _ _ => True := by
  induction dialogue generalizing state with
  | done result => exact .of_pure hstate trivial
  | ask request next ih =>
      refine .of_ask hstate fun reply after hreply => ?_
      exact ih reply (h.2 reply) (hkept _ _ _ _ h.1 hstate hreply)

end Asks

end StackAsm.Dialogue
