import StackAsm.Event

/-!
Reports: what a stage of the assembler comes to, together with what it logs on the way.
-/

namespace StackAsm

/-- The end of a stage, and its events in the order in which they are logged. -/
structure Report (ε α : Type) where
  result : Except ε α
  events : List Event

namespace Report

variable {ε δ α β : Type}

/-- A stage that goes on with what another one has come to. After a fault nothing follows. -/
def andThen (report : Report ε α) (next : α → Report ε β) : Report ε β :=
  match report.result with
  | .error fault => { result := .error fault, events := report.events }
  | .ok a =>
      let following := next a
      { result := following.result, events := report.events ++ following.events }

instance : Monad (Report ε) where
  pure a := { result := .ok a, events := [] }
  bind := andThen

def log (event : Event) : Report ε Unit :=
  { result := .ok (), events := [event] }

/-- Logs events one after the other. -/
def logAll (events : List Event) : Report ε Unit :=
  { result := .ok (), events }

def fail (fault : ε) : Report ε α :=
  { result := .error fault, events := [] }

/-- Something that is done without logging. -/
def silent (result : Except ε α) : Report ε α :=
  { result, events := [] }

/-- The same stage with its faults told in another way. -/
def mapFault (f : ε → δ) (report : Report ε α) : Report δ α :=
  { result := report.result.mapError f, events := report.events }

@[simp]
theorem result_pure (a : α) : (pure a : Report ε α).result = .ok a :=
  rfl

@[simp]
theorem events_pure (a : α) : (pure a : Report ε α).events = [] :=
  rfl

@[simp]
theorem result_bind (report : Report ε α) (next : α → Report ε β) :
    (report >>= next).result = report.result >>= fun a => (next a).result := by
  change (report.andThen next).result = _
  rw [andThen]
  cases report.result <;> rfl

theorem events_bind (report : Report ε α) (next : α → Report ε β) :
    (report >>= next).events =
      report.events ++
        match report.result with
        | .error _ => []
        | .ok a => (next a).events := by
  change (report.andThen next).events = _
  rw [andThen]
  cases report.result with
  | error fault => rw [List.append_nil]
  | ok a => rfl

theorem log_bind (event : Event) (next : Unit → Report ε β) :
    log event >>= next = { result := (next ()).result, events := event :: (next ()).events } :=
  rfl

theorem logAll_bind (events : List Event) (next : Unit → Report ε β) :
    logAll events >>= next = { result := (next ()).result, events := events ++ (next ()).events } :=
  rfl

theorem andThen_pure (report : Report ε α) : report.andThen pure = report := by
  rcases report with ⟨_ | a, events⟩
  · rfl
  · exact congrArg (mk (.ok a)) (List.append_nil events)

theorem andThen_assoc {γ : Type} (report : Report ε α) (f : α → Report ε β) (g : β → Report ε γ) :
    (report.andThen f).andThen g = report.andThen fun a => (f a).andThen g := by
  rcases report with ⟨_ | a, events⟩
  · rfl
  · simp only [andThen]
    cases (f a).result with
    | error fault => rfl
    | ok b => simp only [List.append_assoc]

instance : LawfulMonad (Report ε) :=
  LawfulMonad.mk' _ andThen_pure (fun _ _ => rfl) andThen_assoc

end Report

end StackAsm
