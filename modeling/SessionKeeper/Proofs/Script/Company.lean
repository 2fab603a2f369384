import SessionKeeper.Proofs.Script.Asks
import SessionKeeper.Proofs.Script.Exec

/-!
# Running in company

An operation can run while somebody else changes the machine between its steps. A sequence then
still runs its parts one after the other, and as long as an operation asks for nothing that the
others act on, it runs as if it were alone.
-/
namespace SessionKeeper

/-- What somebody else does after a step: from the machine before the step, what was asked for and
the machine after it, the machine that the next step finds. -/
abbrev Company := Machine → Request → Machine → Machine

/-- That nobody acts on requests of a kind. -/
def Company.Ignores (company : Company) (P : Request → Prop) : Prop :=
  ∀ before request after, P request → company before request after = after

namespace Script

variable {α β : Type} {company : Company}

theorem runWith_ask (request : Request) (next : request.Answer → Script α) (machine : Machine) :
    (Script.ask request next).runWith company machine =
      (next (machine.answer request).1).runWith company
        (company machine request (machine.answer request).2) := rfl

theorem runWith_bind (p : Script α) (f : α → Script β) (machine : Machine) :
    (p.bind f).runWith company machine =
      (f (p.runWith company machine).1).runWith company (p.runWith company machine).2 := by
  induction p generalizing machine with
  | done a => rfl
  | ask request next ih => exact ih _ _

/-- Others who act on nothing that is asked for are not noticed. -/
theorem runWith_of_asks {P : Request → Prop} {script : Script α} (asks : script.Asks P)
    (ignores : company.Ignores P) (machine : Machine) :
    script.runWith company machine = script.run machine := by
  induction script generalizing machine with
  | done a => rfl
  | ask request next ih =>
    rw [run_ask, runWith_ask, ignores _ _ _ asks.1]
    exact ih _ (asks.2 _) _

end Script

namespace Action

variable {α β : Type} {company : Company}

/-- The outcome of an operation that runs in company and the machine that is left. -/
def execWith (company : Company) (action : Action α) (machine : Machine) :
    Except Failure α × Machine :=
  action.run.runWith company machine

theorem execWith_bind (x : Action α) (f : α → Action β) (machine : Machine) :
    (x >>= f).execWith company machine = match x.execWith company machine with
      | (.ok a, after) => (f a).execWith company after
      | (.error failure, after) => (.error failure, after) := by
  rw [execWith, run_bind, Script.runWith_bind, execWith]
  rcases x.run.runWith company machine with ⟨_ | _, after⟩ <;> rfl

theorem execWith_bind_ok {x : Action α} {f : α → Action β} {a : α} {machine after : Machine}
    (h : x.execWith company machine = (.ok a, after)) :
    (x >>= f).execWith company machine = (f a).execWith company after := by
  rw [execWith_bind, h]

theorem execWith_bind_error {x : Action α} {f : α → Action β} {failure : Failure}
    {machine after : Machine} (h : x.execWith company machine = (.error failure, after)) :
    (x >>= f).execWith company machine = (.error failure, after) := by
  rw [execWith_bind, h]

/-- After a step the others act, and it goes on from there. -/
theorem execWith_ask_bind {request : Request} {f : request.Answer → Action β}
    {answer : request.Answer} {machine after : Machine}
    (h : machine.answer request = (answer, after)) :
    (ask request >>= f).execWith company machine =
      (f answer).execWith company (company machine request after) := by
  have step : (ask request).execWith company machine =
      (.ok (machine.answer request).1, company machine request (machine.answer request).2) := rfl
  rw [execWith_bind, step, h]

/-- Others who act on nothing that is asked for are not noticed. -/
theorem execWith_of_asks {P : Request → Prop} {x : Action α} (asks : x.Asks P)
    (ignores : company.Ignores P) (machine : Machine) :
    x.execWith company machine = x.exec machine := Script.runWith_of_asks asks ignores machine

end Action

end SessionKeeper
