import SessionKeeper.Failure
import SessionKeeper.Script.Output

/-!
# Scripts

A script is a value: it is finished, or it asks the machine for one thing and goes
on with the answer. Operations are built from scripts and know nothing of the
machine that answers, so the same operation can be run on the machine in memory,
on a real one, step by step or interleaved with another.
-/
namespace SessionKeeper

/-- What a script can ask the machine for. Each request is one atomic step. -/
inductive Request where
  | readFile (path : Path)
  | probe (path : Path)
  | listDirectory (path : Path)
  | makeDirectory (path : Path) (mode : Nat)
  | createFile (path : Path) (mode : Nat)
  | createTemporary (directory : Path) (stem : String)
  | writeFile (number : Nat) (content : Octets)
  | setMode (path : Path) (mode : Nat)
  | rename (source target : Path)
  | unlink (path : Path)
  | clock
  | processId
  | environment
  | homeOf (user : String)
  | workingDirectory
  | hasKeychain
  | keychainGet (service account : Text)
  | keychainSet (service account secret : Text)
  | keychainDelete (service account : Text)
  | post (request : Keyserver.Request)
  | readLine
  | readSecret (prompt : String)
  | emit (output : Output)

/-- What the machine answers. A keychain may refuse to delete an entry it does not have. -/
def Request.Answer : Request → Type
  | .readFile _ => Except FileFault Octets
  | .probe _ => Except FileFault Kind
  | .listDirectory _ => Except FileFault (List String)
  | .makeDirectory .. => Except FileFault Unit
  | .createFile .. => Except FileFault Nat
  | .createTemporary .. => Except FileFault (Path × Nat)
  | .writeFile .. => Unit
  | .setMode .. => Except FileFault Unit
  | .rename .. => Except FileFault Unit
  | .unlink _ => Except FileFault Unit
  | .clock => Moment
  | .processId => Int
  | .environment => Assoc Text Text
  | .homeOf _ => Option String
  | .workingDirectory => Path
  | .hasKeychain => Bool
  | .keychainGet .. => Option Text
  | .keychainSet .. => Unit
  | .keychainDelete .. => Bool
  | .post _ => Keyserver.Outcome
  | .readLine => Option Text
  | .readSecret _ => Option Text
  | .emit _ => Unit

/-- A script with a result. -/
inductive Script (α : Type) where
  | done (result : α)
  | ask (request : Request) (next : request.Answer → Script α)

namespace Script

variable {α β γ : Type}

/-- A script followed by another one that is given its result. -/
def bind : Script α → (α → Script β) → Script β
  | .done a, f => f a
  | .ask request next, f => .ask request fun answer => bind (next answer) f

instance : Monad Script where
  pure := .done
  bind := bind

@[simp] theorem done_bind (a : α) (f : α → Script β) : (Script.done a).bind f = f a := rfl

@[simp] theorem ask_bind (request : Request) (next : request.Answer → Script α)
    (f : α → Script β) :
    (Script.ask request next).bind f = .ask request fun answer => (next answer).bind f := rfl

@[simp] theorem bind_done (p : Script α) : p.bind .done = p := by
  induction p with
  | done a => rfl
  | ask request next ih => simp [bind, ih]

theorem bind_assoc (p : Script α) (f : α → Script β) (g : β → Script γ) :
    (p.bind f).bind g = p.bind fun a => (f a).bind g := by
  induction p with
  | done a => rfl
  | ask request next ih => simp [bind, ih]

instance : LawfulMonad Script :=
  LawfulMonad.mk' Script bind_done (fun _ _ => rfl) bind_assoc

def request (r : Request) : Script r.Answer := .ask r .done

end Script

/-- An operation: a script that ends with a result or a failure. -/
abbrev Action := ExceptT Failure Script

namespace Action

variable {α : Type}

def ask (r : Request) : Action r.Answer := (Script.request r : Script r.Answer)

def fail (failure : Failure) : Action α := throw failure

/-- Goes on with a result, or stops with a failure of a file operation. -/
def ofFile : Except FileFault α → Action α
  | .ok a => pure a
  | .error fault => throw (.file fault)

/-- Goes on with what was read, or stops because it does not fit its schema. -/
def ofReading (schema : String) : Schema.Reading α → Action α
  | .ok a => pure a
  | .error issues => throw (.invalid schema issues)

def log (level : Level) (channel : Channel) (message : String) : Action Unit :=
  ask (.emit (.log ⟨level, channel, message⟩))

def printLine (line : Text) : Action Unit := ask (.emit (.print (line ++ "\n")))

def printErrorLine (line : Text) : Action Unit := ask (.emit (.printError (line ++ "\n")))

/-- The current time. -/
def now : Action Moment := ask .clock

end Action
end SessionKeeper
