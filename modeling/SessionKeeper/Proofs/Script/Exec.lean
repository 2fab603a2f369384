import SessionKeeper.Keeper.Basic
import SessionKeeper.Proofs.Disk.Tree
import SessionKeeper.Script.Machine

/-!
# Running operations

An operation runs on a machine that nobody else uses, and an operation on sessions also
carries the OAuth client along. A sequence runs its parts one after the other until one
of them fails. Whatever runs, the machine's clock, its working directory and the other
circumstances stay as they are, and no two files get the same number.
-/
namespace SessionKeeper

/-- The outcome of an operation and the machine it leaves. -/
def Action.exec {α : Type} (action : Action α) (machine : Machine) :
    Except Failure α × Machine :=
  action.run.run machine

/-- The outcome of an operation on sessions, the OAuth client made so far and the machine it
leaves. -/
def SessionAction.exec {α : Type} (action : SessionAction α) (client : Option OAuth.Client)
    (machine : Machine) : Except Failure α × Option OAuth.Client × Machine :=
  let result := (action.run.run client).run machine
  (result.1.1, result.1.2, result.2)

namespace Action

variable {α β : Type}

@[simp] theorem exec_pure (a : α) (machine : Machine) :
    (pure a : Action α).exec machine = (.ok a, machine) := rfl

@[simp] theorem exec_throw (failure : Failure) (machine : Machine) :
    (throw failure : Action α).exec machine = (.error failure, machine) := rfl

@[simp] theorem exec_ask (request : Request) (machine : Machine) :
    (ask request).exec machine = (.ok (machine.answer request).1, (machine.answer request).2) := rfl

@[simp] theorem exec_log (level : Level) (channel : Channel) (message : String)
    (machine : Machine) : (log level channel message).exec machine =
      (.ok (), machine.tell (.log ⟨level, channel, message⟩)) := rfl

@[simp] theorem exec_now (machine : Machine) : now.exec machine = (.ok machine.now, machine) := rfl

/-- The script of a sequence goes on after a result and is done after a failure. -/
theorem run_bind (x : Action α) (f : α → Action β) :
    (x >>= f).run = x.run.bind (ExceptT.bindCont f) := rfl

/-- A sequence goes on with the result of its first part. -/
theorem exec_bind (x : Action α) (f : α → Action β) (machine : Machine) :
    (x >>= f).exec machine = match x.exec machine with
      | (.ok a, after) => (f a).exec after
      | (.error failure, after) => (.error failure, after) := by
  rw [exec, run_bind, Script.run_bind, exec]
  rcases x.run.run machine with ⟨_ | _, after⟩ <;> rfl

theorem exec_bind_ok {x : Action α} {f : α → Action β} {a : α} {machine after : Machine}
    (h : x.exec machine = (.ok a, after)) : (x >>= f).exec machine = (f a).exec after := by
  rw [exec_bind, h]

theorem exec_bind_error {x : Action α} {f : α → Action β} {failure : Failure}
    {machine after : Machine} (h : x.exec machine = (.error failure, after)) :
    (x >>= f).exec machine = (.error failure, after) := by
  rw [exec_bind, h]

/-- Going on with a result changes nothing but the result. -/
theorem exec_bind_pure {x : Action α} {outcome : Except Failure α} {machine after : Machine}
    (h : x.exec machine = (outcome, after)) (f : α → β) :
    (x >>= fun a => pure (f a)).exec machine = (outcome.map f, after) := by
  rw [exec_bind, h]
  cases outcome <;> rfl

/-- What is asked for first decides how it goes on. -/
theorem exec_ask_bind {request : Request} {f : request.Answer → Action β}
    {answer : request.Answer} {machine after : Machine}
    (h : machine.answer request = (answer, after)) :
    (ask request >>= f).exec machine = (f answer).exec after := by
  rw [exec_bind, exec_ask, h]

end Action

namespace SessionAction

variable {α β : Type} {client : Option OAuth.Client}

@[simp] theorem exec_pure (a : α) (machine : Machine) :
    (pure a : SessionAction α).exec client machine = (.ok a, client, machine) := rfl

@[simp] theorem exec_throw (failure : Failure) (machine : Machine) :
    (throw failure : SessionAction α).exec client machine = (.error failure, client, machine) := rfl

/-- An operation that has nothing to do with the OAuth client leaves it alone. -/
@[simp] theorem exec_lift (action : Action α) (machine : Machine) :
    (liftM action : SessionAction α).exec client machine =
      ((action.exec machine).1, client, (action.exec machine).2) := by
  have h : ((liftM action : SessionAction α).run.run client) =
      action.run.bind fun outcome => .done (outcome, client) := rfl
  rw [exec, h, Script.run_bind]
  rfl

/-- A sequence goes on with the result of its first part. -/
theorem exec_bind (x : SessionAction α) (f : α → SessionAction β) (machine : Machine) :
    (x >>= f).exec client machine = match x.exec client machine with
      | (.ok a, later, after) => (f a).exec later after
      | (.error failure, later, after) => (.error failure, later, after) := by
  have h : ((x >>= f).run.run client) = (x.run.run client).bind fun result => match result with
      | (.ok a, later) => (f a).run.run later
      | (.error failure, later) => .done (.error failure, later) := by
    show (x.run.run client).bind (fun result => (ExceptT.bindCont f result.1).run result.2) = _
    congr 1
    funext result
    rcases result with ⟨_ | _, later⟩ <;> rfl
  rw [exec, h, Script.run_bind, exec]
  rcases (x.run.run client).run machine with ⟨⟨_ | _, later⟩, after⟩ <;> rfl

theorem exec_bind_ok {x : SessionAction α} {f : α → SessionAction β} {a : α}
    {later : Option OAuth.Client} {machine after : Machine}
    (h : x.exec client machine = (.ok a, later, after)) :
    (x >>= f).exec client machine = (f a).exec later after := by
  rw [exec_bind, h]

theorem exec_bind_error {x : SessionAction α} {f : α → SessionAction β} {failure : Failure}
    {later : Option OAuth.Client} {machine after : Machine}
    (h : x.exec client machine = (.error failure, later, after)) :
    (x >>= f).exec client machine = (.error failure, later, after) := by
  rw [exec_bind, h]

/-- Nothing is left of the client when an operation is done on its own. -/
theorem exec_alone (action : SessionAction α) (machine : Machine) :
    action.alone.exec machine = ((action.exec none machine).1, (action.exec none machine).2.2) := by
  have h : action.alone.run = (action.run.run none).bind fun result => .done result.1 := rfl
  rw [Action.exec, h, Script.run_bind]
  rfl

theorem exec_tryCatch (x : SessionAction α) (handle : Failure → SessionAction α)
    (machine : Machine) :
    (tryCatch x handle : SessionAction α).exec client machine =
      match x.exec client machine with
      | (.ok a, later, after) => (.ok a, later, after)
      | (.error failure, later, after) => (handle failure).exec later after := by
  have h : ((tryCatch x handle : SessionAction α).run.run client) =
      (x.run.run client).bind fun result => match result with
        | (.ok a, later) => .done (.ok a, later)
        | (.error failure, later) => (handle failure).run.run later := by
    show (x.run.run client).bind (fun result => _) = _
    congr 1
    funext result
    rcases result with ⟨_ | _, later⟩ <;> rfl
  rw [exec, h, Script.run_bind, exec]
  rcases (x.run.run client).run machine with ⟨⟨_ | _, later⟩, after⟩ <;> rfl

end SessionAction

namespace Script

variable {α : Type}

theorem run_preserves (P : Machine → Prop)
    (step : ∀ machine request, P machine → P (machine.answer request).2)
    (script : Script α) (machine : Machine) (h : P machine) : P (script.run machine).2 := by
  induction script generalizing machine with
  | done a => exact h
  | ask request next ih =>
    rw [run_ask]
    exact ih _ _ (step machine request h)

end Script

/-- That an operation leaves a part of every machine as it is. -/
def Action.Keeps {α β : Type} (part : Machine → β) (action : Action α) : Prop :=
  ∀ machine, part (action.exec machine).2 = part machine

namespace Action.Keeps

variable {α β γ : Type} {part : Machine → γ}

theorem pure (a : α) : Keeps part (Pure.pure a : Action α) := fun _ => rfl

theorem throw (failure : Failure) : Keeps part (MonadExcept.throw failure : Action α) :=
  fun _ => rfl

theorem ask {request : Request} (h : ∀ machine, part (machine.answer request).2 = part machine) :
    Keeps part (Action.ask request) := h

theorem bind {x : Action α} {f : α → Action β} (hx : Keeps part x) (hf : ∀ a, Keeps part (f a)) :
    Keeps part (x >>= f) := by
  intro machine
  have h := hx machine
  rw [exec_bind]
  rcases he : x.exec machine with ⟨_ | a, after⟩ <;> rw [he] at h
  · exact h
  · exact (hf a after).trans h

end Action.Keeps

def Machine.belongings (machine : Machine) : Tree × Keychain := (machine.tree, machine.keychain)

/-- That an operation changes no file and no entry of the keychain. -/
abbrev Action.IsPassive {α : Type} (action : Action α) : Prop := action.Keeps Machine.belongings

namespace Action.IsPassive

variable {α : Type}

theorem tree {action : Action α} (h : IsPassive action) (machine : Machine) :
    (action.exec machine).2.tree = machine.tree := congrArg Prod.fst (h machine)

theorem keychain {action : Action α} (h : IsPassive action) (machine : Machine) :
    (action.exec machine).2.keychain = machine.keychain := congrArg Prod.snd (h machine)

theorem log (level : Level) (channel : Channel) (message : String) :
    IsPassive (Action.log level channel message) := fun _ => rfl

theorem now : IsPassive Action.now := fun _ => rfl

theorem readFile (path : Path) : IsPassive (ask (.readFile path)) := fun _ => rfl

theorem probe (path : Path) : IsPassive (ask (.probe path)) := fun _ => rfl

theorem post (request : Keyserver.Request) : IsPassive (ask (.post request)) := fun _ => rfl

end Action.IsPassive

/-- What nothing that runs on a machine can change. -/
structure Machine.SameCircumstances (before after : Machine) : Prop where
  directory : after.directory = before.directory
  now : after.now = before.now
  processId : after.processId = before.processId
  environment : after.environment = before.environment
  homes : after.homes = before.homes
  offer : after.offer = before.offer
  keyserver : after.keyserver = before.keyserver

namespace Machine

theorem edit_fixed (machine : Machine) (result : Except FileFault Tree) :
    machine.SameCircumstances (machine.edit result).2 := by
  cases result <;> exact ⟨rfl, rfl, rfl, rfl, rfl, rfl, rfl⟩

theorem create_fixed (machine : Machine) (path : Path) (mode : Nat) :
    machine.SameCircumstances (machine.create path mode).2 := by
  rw [create]
  cases machine.tree.createFile machine.directory path mode <;>
    exact ⟨rfl, rfl, rfl, rfl, rfl, rfl, rfl⟩

theorem nextLine_fixed (machine : Machine) : machine.SameCircumstances machine.nextLine.2 := by
  rw [nextLine]
  cases machine.input <;> exact ⟨rfl, rfl, rfl, rfl, rfl, rfl, rfl⟩

theorem tell_fixed {before after : Machine} (output : Output)
    (h : before.SameCircumstances after) : before.SameCircumstances (after.tell output) :=
  ⟨h.1, h.2, h.3, h.4, h.5, h.6, h.7⟩

/-- Making a temporary file makes a file where the first free name leads. -/
theorem answer_createTemporary (machine : Machine) (directory : Path) (stem : String) :
    (machine.answer (.createTemporary directory stem)).2 = (machine.create
      (machine.freeTemporary directory stem machine.tree.nodes.length 0) 0o600).2 := by
  rw [answer]
  cases machine.create (machine.freeTemporary directory stem machine.tree.nodes.length 0) 0o600
    with
  | mk result changed => cases result <;> simp only

theorem answer_readSecret (machine : Machine) (text : String) :
    (machine.answer (.readSecret text)).2 = machine.nextLine.2 ∨
      (machine.answer (.readSecret text)).2 = machine.nextLine.2.tell (.print text) := by
  have h (line : Option Text × Machine) :
      (if line.1.isSome then line.2.tell (.print text) else line.2) = line.2 ∨
        (if line.1.isSome then line.2.tell (.print text) else line.2) =
          line.2.tell (.print text) := by
    split
    · exact Or.inr rfl
    · exact Or.inl rfl
  exact h machine.nextLine

theorem answer_fixed (machine : Machine) (request : Request) :
    machine.SameCircumstances (machine.answer request).2 := by
  cases request
  case makeDirectory => exact edit_fixed _ _
  case setMode => exact edit_fixed _ _
  case rename => exact edit_fixed _ _
  case unlink => exact edit_fixed _ _
  case createFile => exact create_fixed _ _ _
  case createTemporary directory stem =>
    rw [answer_createTemporary]
    exact create_fixed _ _ _
  case readLine => exact nextLine_fixed _
  case readSecret text =>
    rcases machine.answer_readSecret text with h | h <;> rw [h]
    · exact nextLine_fixed _
    · exact tell_fixed _ (nextLine_fixed _)
  all_goals exact ⟨rfl, rfl, rfl, rfl, rfl, rfl, rfl⟩

theorem edit_numbered (machine : Machine) (result : Except FileFault Tree)
    (h : machine.tree.Numbered) (ok : ∀ tree, result = .ok tree → tree.Numbered) :
    (machine.edit result).2.tree.Numbered := by
  cases result with
  | ok tree => exact ok tree rfl
  | error fault => exact h

theorem create_numbered (machine : Machine) (path : Path) (mode : Nat)
    (h : machine.tree.Numbered) : (machine.create path mode).2.tree.Numbered := by
  rw [create]
  cases hc : machine.tree.createFile machine.directory path mode with
  | ok made => exact h.createFile path mode made.1 made.2 hc
  | error fault => exact h

theorem nextLine_tree (machine : Machine) : machine.nextLine.2.tree = machine.tree := by
  rw [nextLine]
  cases machine.input <;> rfl

/-- No answer gives two files one number. -/
theorem answer_numbered (machine : Machine) (request : Request) (h : machine.tree.Numbered) :
    (machine.answer request).2.tree.Numbered := by
  cases request
  case makeDirectory path mode => exact edit_numbered _ _ h fun _ ht => h.makeDirectory path mode _ ht
  case setMode path mode => exact edit_numbered _ _ h fun _ ht => h.setMode path mode _ ht
  case rename source target => exact edit_numbered _ _ h fun _ ht => h.rename source target _ ht
  case unlink path => exact edit_numbered _ _ h fun _ ht => h.unlink path _ ht
  case createFile path mode => exact create_numbered _ _ _ h
  case createTemporary directory stem =>
    rw [answer_createTemporary]
    exact create_numbered _ _ _ h
  case writeFile number content => exact h.writeFile number content
  case readLine =>
    show machine.nextLine.2.tree.Numbered
    rw [nextLine_tree]
    exact h
  case readSecret text =>
    have hl : machine.nextLine.2.tree.Numbered := by
      rw [nextLine_tree]
      exact h
    rcases machine.answer_readSecret text with hs | hs <;> rw [hs] <;> exact hl
  all_goals exact h

end Machine

namespace Machine.SameCircumstances

theorem refl (machine : Machine) : machine.SameCircumstances machine :=
  ⟨rfl, rfl, rfl, rfl, rfl, rfl, rfl⟩

theorem trans {a b c : Machine} (h : a.SameCircumstances b) (k : b.SameCircumstances c) :
    a.SameCircumstances c :=
  ⟨k.1.trans h.1, k.2.trans h.2, k.3.trans h.3, k.4.trans h.4, k.5.trans h.5, k.6.trans h.6,
    k.7.trans h.7⟩

theorem of_run {α : Type} (script : Script α) (machine : Machine) :
    machine.SameCircumstances (script.run machine).2 :=
  script.run_preserves (machine.SameCircumstances ·)
    (fun between request h => h.trans (between.answer_fixed request)) machine (refl machine)

theorem of_exec {α : Type} (action : Action α) (machine : Machine) :
    machine.SameCircumstances (action.exec machine).2 := of_run action.run machine

theorem of_exec_eq {α : Type} {action : Action α} {outcome : Except Failure α} {machine after : Machine}
    (h : action.exec machine = (outcome, after)) : machine.SameCircumstances after := by
  have fixed := of_exec action machine
  rwa [h] at fixed

end Machine.SameCircumstances

/-- No script gives two files one number. -/
theorem Tree.Numbered.of_run {α : Type} (script : Script α) {machine : Machine}
    (h : machine.tree.Numbered) : (script.run machine).2.tree.Numbered :=
  script.run_preserves (fun machine => machine.tree.Numbered) Machine.answer_numbered machine h

theorem Tree.Numbered.of_exec_eq {α : Type} {action : Action α} {outcome : Except Failure α}
    {machine after : Machine} (h : machine.tree.Numbered)
    (he : action.exec machine = (outcome, after)) : after.tree.Numbered := by
  have numbered := h.of_run action.run
  rwa [show (action.run.run machine).2 = after from congrArg Prod.snd he] at numbered

end SessionKeeper
