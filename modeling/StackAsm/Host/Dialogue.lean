/-!
Dialogues: programs that work by asking their surroundings.

A dialogue is either finished or waits for the reply to a request. It says nothing about how
requests are answered, so the same program runs in a simulated machine, in a real one, and in a
proof that holds for all replies.
-/

namespace StackAsm

/-- A program that asks requests, each with its own type of replies, and ends with a result. -/
inductive Dialogue (Request : Type) (Reply : Request → Type) (α : Type) where
  | done (result : α)
  | ask (request : Request) (next : Reply request → Dialogue Request Reply α)

namespace Dialogue

variable {Request : Type} {Reply : Request → Type} {α β : Type}

/-- Goes on with the result of a dialogue. -/
def andThen (dialogue : Dialogue Request Reply α) (next : α → Dialogue Request Reply β) :
    Dialogue Request Reply β :=
  match dialogue with
  | done result => next result
  | ask request continuation => ask request fun reply => (continuation reply).andThen next

instance : Monad (Dialogue Request Reply) where
  pure := done
  bind := andThen

/-- Asks a single request. -/
def perform (request : Request) : Dialogue Request Reply (Reply request) :=
  ask request done

/-- Runs a dialogue in surroundings that have effects. -/
def run {m : Type → Type} [Monad m] (answer : (request : Request) → m (Reply request)) :
    Dialogue Request Reply α → m α
  | done result => pure result
  | ask request next => do
      let reply ← answer request
      (next reply).run answer

/-- Runs a dialogue in surroundings that are a value, and returns what becomes of them. -/
def simulate {σ : Type} (answer : σ → (request : Request) → Reply request × σ) (state : σ) :
    Dialogue Request Reply α → α × σ
  | done result => (result, state)
  | ask request next =>
      let outcome := answer state request
      (next outcome.1).simulate answer outcome.2

@[simp]
theorem andThen_done (dialogue : Dialogue Request Reply α) : dialogue.andThen done = dialogue := by
  induction dialogue with
  | done result => rfl
  | ask request next ih => simp [andThen, ih]

theorem andThen_assoc {γ : Type} (dialogue : Dialogue Request Reply α)
    (f : α → Dialogue Request Reply β) (g : β → Dialogue Request Reply γ) :
    (dialogue.andThen f).andThen g = dialogue.andThen fun result => (f result).andThen g := by
  induction dialogue with
  | done result => rfl
  | ask request next ih => simp [andThen, ih]

instance : LawfulMonad (Dialogue Request Reply) :=
  LawfulMonad.mk' _ andThen_done (fun _ _ => rfl) andThen_assoc

/-- Running a dialogue and what follows it is running one after the other. -/
theorem simulate_andThen {σ : Type} (answer : σ → (request : Request) → Reply request × σ)
    (state : σ) (dialogue : Dialogue Request Reply α) (next : α → Dialogue Request Reply β) :
    (dialogue.andThen next).simulate answer state =
      (next (dialogue.simulate answer state).1).simulate answer
        (dialogue.simulate answer state).2 := by
  induction dialogue generalizing state with
  | done result => rfl
  | ask request continuation ih => simp [andThen, simulate, ih]

end Dialogue

end StackAsm
