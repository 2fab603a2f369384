import SessionKeeper.Script.Basic

/-!
# The machine in memory

A machine holds everything a script can ask about: a file tree, a clock, an
environment, a keychain, a keyserver and lines to read. It answers one request at a
time and keeps a transcript of what was shown. `Script.run` answers a whole
script; `Script.runWith` lets something else happen after each step.

The clock shows one time for the whole of a script, however often it is asked. Time passes between
scripts, and by what others do to the machine after a step.
-/
namespace SessionKeeper

/-- What a platform offers as a keychain. A strict keychain complains when an entry that it
does not have is deleted. -/
inductive KeychainOffer where
  | missing
  | placeholder
  | store (strict : Bool)
deriving DecidableEq, Repr

/-- The entries of a keychain by service and account. -/
abbrev Keychain := Assoc (Text × Text) Text

/-- A machine. The keyserver's answer depends on how many requests it has had. -/
structure Machine where
  tree : Tree
  directory : Location
  now : Moment
  processId : Int
  environment : Assoc Text Text
  homes : Assoc String String
  offer : KeychainOffer
  keychain : Keychain
  keyserver : Nat → Keyserver.Request → Keyserver.Outcome
  requests : Nat
  input : List Text
  transcript : List Output

namespace Machine

/-- A file operation that changes the tree when it succeeds. -/
def edit (machine : Machine) (result : Except FileFault Tree) :
    Except FileFault Unit × Machine :=
  match result with
  | .ok tree => (.ok (), { machine with tree })
  | .error fault => (.error fault, machine)

/-- The numbered name of a temporary file for a stem. Real ones are eight characters drawn at
random; numbers stand for them, and grow longer only where 10^8 of them are taken. -/
def temporaryName (stem : String) (number : Nat) : String :=
  let digits := Nat.toDigits 10 number
  "." ++ stem ++ "." ++ String.ofList (List.replicate (8 - digits.length) '0' ++ digits) ++ ".tmp"

/-- The first temporary file for a stem, from a number on, where nothing stands in the
directory; after as many tries as are allowed the next one is taken as it comes. -/
def freeTemporary (machine : Machine) (directory : Path) (stem : String) :
    (tries number : Nat) → Path
  | 0, number => directory.child (temporaryName stem number)
  | tries + 1, number =>
    let path := directory.child (temporaryName stem number)
    match machine.tree.find machine.directory path with
    | .ok _ => freeTemporary machine directory stem tries (number + 1)
    | .error _ => path

/-- Makes an empty file and gives its number. -/
def create (machine : Machine) (path : Path) (mode : Nat) : Except FileFault Nat × Machine :=
  match machine.tree.createFile machine.directory path mode with
  | .ok (number, tree) => (.ok number, { machine with tree })
  | .error fault => (.error fault, machine)

/-- Adds to the transcript. -/
def tell (machine : Machine) (output : Output) : Machine :=
  { machine with transcript := machine.transcript ++ [output] }

/-- Takes the next line of the input, if there is one. -/
def nextLine (machine : Machine) : Option Text × Machine :=
  match machine.input with
  | line :: rest => (some line, { machine with input := rest })
  | [] => (none, machine)

/-- Answers a request. A secret is only asked for where there is a line to read. -/
def answer (machine : Machine) : (request : Request) → request.Answer × Machine
  | .readFile path => (machine.tree.read machine.directory path, machine)
  | .probe path => (machine.tree.kind machine.directory path, machine)
  | .listDirectory path => (machine.tree.list machine.directory path, machine)
  | .makeDirectory path mode =>
    machine.edit (machine.tree.makeDirectory machine.directory path mode)
  | .createFile path mode => machine.create path mode
  | .createTemporary directory stem =>
    let path := machine.freeTemporary directory stem machine.tree.nodes.length 0
    match machine.create path 0o600 with
    | (.ok number, changed) => (.ok (path, number), changed)
    | (.error fault, changed) => (.error fault, changed)
  | .writeFile number content =>
    ((), { machine with tree := machine.tree.writeFile number content })
  | .setMode path mode => machine.edit (machine.tree.setMode machine.directory path mode)
  | .rename source target => machine.edit (machine.tree.rename machine.directory source target)
  | .unlink path => machine.edit (machine.tree.unlink machine.directory path)
  | .clock => (machine.now, machine)
  | .processId => (machine.processId, machine)
  | .environment => (machine.environment, machine)
  | .homeOf user => (machine.homes.value? user, machine)
  | .workingDirectory => (⟨"/", machine.directory⟩, machine)
  | .hasKeychain => (machine.offer ≠ .missing && machine.offer ≠ .placeholder, machine)
  | .keychainGet service account => (machine.keychain.value? (service, account), machine)
  | .keychainSet service account secret =>
    ((), { machine with keychain := machine.keychain.put (service, account) secret })
  | .keychainDelete service account =>
    (machine.offer ≠ .store true || machine.keychain.has (service, account),
      { machine with keychain := machine.keychain.remove (service, account) })
  | .post request =>
    (machine.keyserver machine.requests request,
      { machine.tell (.request request) with requests := machine.requests + 1 })
  | .readLine => machine.nextLine
  | .readSecret text =>
    let (line, after) := machine.nextLine
    (line, if line.isSome then after.tell (.print text) else after)
  | .emit output => ((), machine.tell output)

end Machine

namespace Script

variable {α : Type}

/-- Runs a script to its end; after each step the machine may be changed by someone else,
who sees the machine before the step, the request and the machine after it. -/
def runWith (others : Machine → Request → Machine → Machine) :
    Script α → Machine → α × Machine
  | .done a, machine => (a, machine)
  | .ask request next, machine =>
    let (answer, after) := machine.answer request
    runWith others (next answer) (others machine request after)

/-- Runs a script to its end with nobody else on the machine. -/
def run (script : Script α) (machine : Machine) : α × Machine :=
  runWith (fun _ _ after => after) script machine

@[simp] theorem run_done (a : α) (machine : Machine) :
    (Script.done a).run machine = (a, machine) := rfl

@[simp] theorem run_ask (request : Request) (next : request.Answer → Script α)
    (machine : Machine) :
    (Script.ask request next).run machine =
      (next (machine.answer request).1).run (machine.answer request).2 := rfl

/-- A sequence runs its parts one after the other. -/
theorem run_bind {β : Type} (p : Script α) (f : α → Script β) (machine : Machine) :
    (p.bind f).run machine = (f (p.run machine).1).run (p.run machine).2 := by
  induction p generalizing machine with
  | done a => rfl
  | ask request next ih => simp [ih]

end Script
end SessionKeeper
