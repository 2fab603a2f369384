import Mathlib.Data.List.Forall2
import SessionKeeper.Proofs.Script.Ends

/-!
# Two runs side by side

A likeness tells how two machines have to compare between operations, and how the machines that
two runs pass through have to compare along the way. Two operations agree under a likeness when,
started on machines that are alike, they end with results that go together or with the same
failure, and on machines that are alike again. What is built alike from operations that agree
agrees as well, so a statement about two whole runs comes down to the single requests.
-/
namespace SessionKeeper

/-- How two machines compare between operations, and how those passed through on the way do. -/
structure Likeness where
  holds : Machine → Machine → Prop
  along : List Machine → List Machine → Prop
  along_nil : along [] []
  along_append {a b c d : List Machine} : along a b → along c d → along (a ++ c) (b ++ d)

namespace Script

variable {α β γ δ : Type}

/-- The machines that a script passes through, one for each request that was answered. -/
def trail : Script α → Machine → List Machine
  | .done _, _ => []
  | .ask request next, machine =>
    let (answer, after) := machine.answer request
    after :: trail (next answer) after

theorem trail_bind (p : Script α) (f : α → Script β) (machine : Machine) :
    (p.bind f).trail machine =
      p.trail machine ++ (f (p.run machine).1).trail (p.run machine).2 := by
  induction p generalizing machine with
  | done a => rfl
  | ask request next ih => simp [bind, trail, ih]

/-- That two scripts, started on machines that compare in one way, end comparing in another one,
and pass through machines that compare along the way. -/
def Pairs (L : Likeness) (before : Machine → Machine → Prop) (x : Script α) (y : Script β)
    (after : α → β → Machine → Machine → Prop) : Prop :=
  ∀ m n, before m n →
    after (x.run m).1 (y.run n).1 (x.run m).2 (y.run n).2 ∧ L.along (x.trail m) (y.trail n)

namespace Pairs

variable {L : Likeness} {before : Machine → Machine → Prop}
  {after : α → β → Machine → Machine → Prop} {last : γ → δ → Machine → Machine → Prop}

theorem done {a : α} {b : β} (h : ∀ m n, before m n → after a b m n) :
    Pairs L before (.done a) (.done b) after :=
  fun m n hb => ⟨h m n hb, L.along_nil⟩

theorem bind {x : Script α} {y : Script β} {f : α → Script γ} {g : β → Script δ}
    (first : Pairs L before x y after) (second : ∀ a b, Pairs L (after a b) (f a) (g b) last) :
    Pairs L before (x.bind f) (y.bind g) last := by
  intro m n hb
  obtain ⟨ended, passed⟩ := first m n hb
  obtain ⟨ended', passed'⟩ := second _ _ _ _ ended
  rw [Script.run_bind, Script.run_bind, trail_bind, trail_bind]
  exact ⟨ended', L.along_append passed passed'⟩

theorem mono {x : Script α} {y : Script β} {after' : α → β → Machine → Machine → Prop}
    (h : Pairs L before x y after) (imp : ∀ a b m n, after a b m n → after' a b m n) :
    Pairs L before x y after' :=
  fun m n hb => ⟨imp _ _ _ _ (h m n hb).1, (h m n hb).2⟩

end Pairs

end Script

/-- How two runs end together: in the same failure on machines that are alike, or with results
that compare as told. -/
inductive Together {α β : Type} (L : Likeness) (told : α → β → Machine → Machine → Prop) :
    Except Failure α → Except Failure β → Machine → Machine → Prop where
  | ok {a : α} {b : β} {m n : Machine} (h : told a b m n) : Together L told (.ok a) (.ok b) m n
  | error {m n : Machine} (failure : Failure) (h : L.holds m n) :
    Together L told (.error failure) (.error failure) m n

/-- That two outcomes are the same failure, or results that go together. -/
inductive SameOutcome {α β : Type} (V : α → β → Prop) :
    Except Failure α → Except Failure β → Prop where
  | ok {a : α} {b : β} (h : V a b) : SameOutcome V (.ok a) (.ok b)
  | error (failure : Failure) : SameOutcome V (.error failure) (.error failure)

theorem SameOutcome.mono {α β : Type} {V W : α → β → Prop} {x : Except Failure α}
    {y : Except Failure β} (h : SameOutcome V x y) (imp : ∀ a b, V a b → W a b) :
    SameOutcome W x y := by
  cases h with
  | ok h => exact .ok (imp _ _ h)
  | error failure => exact .error failure

theorem SameOutcome.of_eq {α : Type} {x y : Except Failure α} (h : x = y) : SameOutcome Eq x y := by
  subst h
  cases x with
  | ok a => exact .ok rfl
  | error failure => exact .error failure

theorem SameOutcome.eq {α : Type} {x y : Except Failure α} (h : SameOutcome Eq x y) : x = y := by
  cases h with
  | ok h => rw [h]
  | error failure => rfl

namespace Action

variable {α β γ δ : Type} {L : Likeness} {before : Machine → Machine → Prop}
  {told : α → β → Machine → Machine → Prop} {last : γ → δ → Machine → Machine → Prop}
  {V : α → β → Prop} {W : γ → δ → Prop}

/-- That two operations, started on machines that compare in one way, end together. -/
def Pairs (L : Likeness) (before : Machine → Machine → Prop) (x : Action α) (y : Action β)
    (told : α → β → Machine → Machine → Prop) : Prop :=
  Script.Pairs L before x.run y.run (Together L told)

/-- That two operations, started on machines that are alike, end together on such machines. -/
abbrev Agrees (L : Likeness) (V : α → β → Prop) (x : Action α) (y : Action β) : Prop :=
  Pairs L L.holds x y fun a b m n => V a b ∧ L.holds m n

namespace Pairs

theorem pure {a : α} {b : β} (h : ∀ m n, before m n → told a b m n) :
    Pairs L before (Pure.pure a) (Pure.pure b) told :=
  .done fun m n hb => .ok (h m n hb)

theorem throw (failure : Failure) (h : ∀ m n, before m n → L.holds m n) :
    Pairs L before (MonadExcept.throw failure : Action α)
      (MonadExcept.throw failure : Action β) told :=
  .done fun m n hb => .error failure (h m n hb)

/-- The first parts of two sequences end together, and then the rests do. -/
theorem bind {x : Action α} {y : Action β} {f : α → Action γ} {g : β → Action δ}
    (first : Pairs L before x y told) (second : ∀ a b, Pairs L (told a b) (f a) (g b) last) :
    Pairs L before (x >>= f) (y >>= g) last := by
  refine Script.Pairs.bind first fun r s m n ended => ?_
  cases ended with
  | ok h => exact second _ _ m n h
  | error failure h => exact ⟨.error failure h, L.along_nil⟩

theorem mono {x : Action α} {y : Action β} {told' : α → β → Machine → Machine → Prop}
    (h : Pairs L before x y told) (imp : ∀ a b m n, told a b m n → told' a b m n) :
    Pairs L before x y told' := by
  refine Script.Pairs.mono h fun r s m n ended => ?_
  cases ended with
  | ok h => exact .ok (imp _ _ _ _ h)
  | error failure h => exact .error failure h

theorem tryCatch {x : Action α} {y : Action β} {handle : Failure → Action α}
    {handle' : Failure → Action β} (hx : Pairs L before x y told)
    (handled : ∀ failure, Pairs L L.holds (handle failure) (handle' failure) told) :
    Pairs L before (MonadExcept.tryCatch x handle) (MonadExcept.tryCatch y handle') told := by
  refine Script.Pairs.bind hx fun r s m n ended => ?_
  cases ended with
  | ok h => exact ⟨.ok h, L.along_nil⟩
  | error failure h => exact handled failure m n h

theorem ask {r s : Request} {told : r.Answer → s.Answer → Machine → Machine → Prop}
    (answered : ∀ m n, before m n →
      told (m.answer r).1 (n.answer s).1 (m.answer r).2 (n.answer s).2 ∧
        L.along [(m.answer r).2] [(n.answer s).2]) :
    Pairs L before (Action.ask r) (Action.ask s) told :=
  fun m n hb => ⟨.ok (answered m n hb).1, (answered m n hb).2⟩

end Pairs

namespace Agrees

theorem pure {a : α} {b : β} (h : V a b) : Agrees L V (Pure.pure a) (Pure.pure b) :=
  Pairs.pure fun _ _ hb => ⟨h, hb⟩

theorem throw (failure : Failure) :
    Agrees L V (MonadExcept.throw failure : Action α) (MonadExcept.throw failure : Action β) :=
  Pairs.throw failure fun _ _ hb => hb

/-- What follows a failure does not matter. -/
theorem throw_bind (failure : Failure) {f : α → Action γ} {g : β → Action δ} :
    Agrees L W ((MonadExcept.throw failure : Action α) >>= f)
      ((MonadExcept.throw failure : Action β) >>= g) := throw failure

/-- Sequences agree when their parts do. -/
theorem bind {x : Action α} {y : Action β} {f : α → Action γ} {g : β → Action δ}
    (first : Agrees L V x y) (second : ∀ a b, V a b → Agrees L W (f a) (g b)) :
    Agrees L W (x >>= f) (y >>= g) :=
  Pairs.bind first fun a b m n hb => second a b hb.1 m n hb.2

/-- Sequences that begin with the same result agree when they go on alike from it. -/
theorem bind_eq {x y : Action α} {f : α → Action γ} {g : α → Action δ} (first : Agrees L Eq x y)
    (second : ∀ a, Agrees L W (f a) (g a)) : Agrees L W (x >>= f) (y >>= g) :=
  bind first fun a _ same => same ▸ second a

theorem mono {V' : α → β → Prop} {x : Action α} {y : Action β} (h : Agrees L V x y)
    (imp : ∀ a b, V a b → V' a b) : Agrees L V' x y :=
  Pairs.mono h fun a b _ _ hb => ⟨imp a b hb.1, hb.2⟩

theorem tryCatch {x : Action α} {y : Action β} {handle : Failure → Action α}
    {handle' : Failure → Action β} (hx : Agrees L V x y)
    (handled : ∀ failure, Agrees L V (handle failure) (handle' failure)) :
    Agrees L V (MonadExcept.tryCatch x handle) (MonadExcept.tryCatch y handle') :=
  Pairs.tryCatch hx handled

/-- How two operations that agree end on machines that are alike. -/
theorem exec {x : Action α} {y : Action β} (h : Agrees L V x y) {m n : Machine}
    (alike : L.holds m n) : SameOutcome V (x.exec m).1 (y.exec n).1 ∧
      L.holds (x.exec m).2 (y.exec n).2 := by
  have ended := (h m n alike).1
  unfold Action.exec
  generalize x.run.run m = left at ended ⊢
  generalize y.run.run n = right at ended ⊢
  obtain ⟨r, m'⟩ := left
  obtain ⟨s, n'⟩ := right
  cases ended with
  | ok h => exact ⟨.ok h.1, h.2⟩
  | error failure h => exact ⟨.error failure, h⟩

end Agrees

end Action

/-- What an operation on sessions leaves for the next one when it ran next to another one: the
same client, of the kind that is expected. -/
structure SameClient (fits : OAuth.Client → Prop) (one other : Option OAuth.Client) : Prop where
  same : one = other
  fits : ∀ client, one = some client → fits client

/-- That two operations on sessions, started with the same client of the expected kind on
machines that are alike, end together with such a client on such machines. -/
def SessionAction.Agrees {α β : Type} (L : Likeness) (fits : OAuth.Client → Prop)
    (V : α → β → Prop) (x : SessionAction α) (y : SessionAction β) : Prop :=
  ∀ client other, SameClient fits client other →
    Script.Pairs L L.holds (x.run.run client) (y.run.run other) fun r s m n =>
      SameOutcome V r.1 s.1 ∧ SameClient fits r.2 s.2 ∧ L.holds m n

namespace SessionAction.Agrees

variable {α β γ δ : Type} {L : Likeness} {fits : OAuth.Client → Prop} {V : α → β → Prop}
  {W : γ → δ → Prop}

theorem pure {a : α} {b : β} (h : V a b) : Agrees L fits V (Pure.pure a) (Pure.pure b) :=
  fun _ _ clients => .done fun _ _ alike => ⟨.ok h, clients, alike⟩

theorem throw (failure : Failure) :
    Agrees L fits V (MonadExcept.throw failure : SessionAction α)
      (MonadExcept.throw failure : SessionAction β) :=
  fun _ _ clients => .done fun _ _ alike => ⟨.error failure, clients, alike⟩

/-- What agrees without a client agrees next to one. -/
theorem lift {x : Action α} {y : Action β} (h : Action.Agrees L V x y) :
    Agrees L fits V (liftM x) (liftM y) := by
  intro client other clients
  refine Script.Pairs.bind h fun r s m n ended => ?_
  cases ended with
  | ok h => exact ⟨⟨.ok h.1, clients, h.2⟩, L.along_nil⟩
  | error failure h => exact ⟨⟨.error failure, clients, h⟩, L.along_nil⟩

/-- What follows a failure does not matter. -/
theorem throw_bind (failure : Failure) {f : α → SessionAction γ} {g : β → SessionAction δ} :
    Agrees L fits W ((MonadExcept.throw failure : SessionAction α) >>= f)
      ((MonadExcept.throw failure : SessionAction β) >>= g) := throw failure

/-- Sequences agree when their parts do. -/
theorem bind {x : SessionAction α} {y : SessionAction β} {f : α → SessionAction γ}
    {g : β → SessionAction δ} (first : Agrees L fits V x y)
    (second : ∀ a b, V a b → Agrees L fits W (f a) (g b)) :
    Agrees L fits W (x >>= f) (y >>= g) := by
  intro client other clients
  refine Script.Pairs.bind (first client other clients) fun r s m n h => ?_
  obtain ⟨ended, clients', alike⟩ := h
  obtain ⟨r, later⟩ := r
  obtain ⟨s, later'⟩ := s
  cases ended with
  | ok h => exact second _ _ h later later' clients' m n alike
  | error failure => exact ⟨⟨.error failure, clients', alike⟩, L.along_nil⟩

/-- Sequences that begin with the same result agree when they go on alike from it. -/
theorem bind_eq {x y : SessionAction α} {f : α → SessionAction γ} {g : α → SessionAction δ}
    (first : Agrees L fits Eq x y) (second : ∀ a, Agrees L fits W (f a) (g a)) :
    Agrees L fits W (x >>= f) (y >>= g) :=
  bind first fun a _ same => same ▸ second a

theorem tryCatch {x : SessionAction α} {y : SessionAction β} {handle : Failure → SessionAction α}
    {handle' : Failure → SessionAction β} (hx : Agrees L fits V x y)
    (handled : ∀ failure, Agrees L fits V (handle failure) (handle' failure)) :
    Agrees L fits V (MonadExcept.tryCatch x handle) (MonadExcept.tryCatch y handle') := by
  intro client other clients
  refine Script.Pairs.bind (hx client other clients) fun r s m n h => ?_
  obtain ⟨ended, clients', alike⟩ := h
  obtain ⟨r, later⟩ := r
  obtain ⟨s, later'⟩ := s
  cases ended with
  | ok h => exact ⟨⟨.ok h, clients', alike⟩, L.along_nil⟩
  | error failure => exact handled failure later later' clients' m n alike

variable [Runtime]

/-- Sections under a lock agree when they do once the lock was taken, and when the lock is taken
and given back alike. -/
theorem holding {lock : Lock} {key : Text} {x : SessionAction α} {y : SessionAction β}
    (acquires : Action.Agrees L (fun marker other => marker = other ∧ marker.key = key)
      (lock.acquire key) (lock.acquire key))
    (releases : ∀ marker, marker.key = key →
      Action.Agrees L Eq (lock.release marker) (lock.release marker))
    (within : Agrees L fits V x y) : Agrees L fits V (lock.holding key x) (lock.holding key y) := by
  refine bind (lift acquires) fun marker other taken => ?_
  obtain ⟨rfl, own⟩ := taken
  refine bind (V := SameOutcome V) ?_ fun outcome outcome' ended => ?_
  · refine tryCatch (bind within fun a b h => pure (.ok h)) fun failure => pure (.error failure)
  · refine bind_eq (lift (releases marker own)) fun _ => ?_
    cases ended with
    | ok h => exact pure h
    | error failure => exact throw failure

omit [Runtime] in
theorem alone {x : SessionAction α} {y : SessionAction β} (h : Agrees L fits V x y) :
    Action.Agrees L V x.alone y.alone := by
  have none_yet : SameClient fits none none := ⟨rfl, fun _ hc => by cases hc⟩
  refine Script.Pairs.bind (h none none none_yet) fun r s m n h => ?_
  obtain ⟨ended, -, alike⟩ := h
  obtain ⟨r, later⟩ := r
  obtain ⟨s, later'⟩ := s
  cases ended with
  | ok h => exact ⟨.ok ⟨h, alike⟩, L.along_nil⟩
  | error failure => exact ⟨.error failure alike, L.along_nil⟩

end SessionAction.Agrees

variable [Runtime]

/-- Sections under a lock agree also where no client has to do with them. -/
theorem Action.Agrees.holding {α β : Type} {L : Likeness} {V : α → β → Prop} {lock : Lock}
    {key : Text} {x : Action α} {y : Action β}
    (acquires : Action.Agrees L (fun marker other => marker = other ∧ marker.key = key)
      (lock.acquire key) (lock.acquire key))
    (releases : ∀ marker, marker.key = key →
      Action.Agrees L Eq (lock.release marker) (lock.release marker))
    (within : Action.Agrees L V x y) :
    Action.Agrees L V (lock.holding key x) (lock.holding key y) := by
  refine bind acquires fun marker other taken => ?_
  obtain ⟨rfl, own⟩ := taken
  refine bind (V := SameOutcome V) ?_ fun outcome outcome' ended => ?_
  · refine tryCatch (bind within fun a b h => pure (.ok h)) fun failure => pure (.error failure)
  · refine bind_eq (releases marker own) fun _ => ?_
    cases ended with
    | ok h => exact pure h
    | error failure => exact throw failure

def Likeness.ofRelation (holds : Machine → Machine → Prop) : Likeness where
  holds := holds
  along _ _ := True
  along_nil := trivial
  along_append _ _ := trivial

omit [Runtime] in
/-- How machines compare on the way does not matter then. -/
theorem Action.Agrees.of_exec {α β : Type} {holds : Machine → Machine → Prop} {V : α → β → Prop}
    {x : Action α} {y : Action β} (h : ∀ m n, holds m n →
      SameOutcome V (x.exec m).1 (y.exec n).1 ∧ holds (x.exec m).2 (y.exec n).2) :
    Action.Agrees (.ofRelation holds) V x y := by
  intro m n alike
  have ended := h m n alike
  unfold Action.exec at ended
  generalize x.run.run m = left at ended ⊢
  generalize y.run.run n = right at ended ⊢
  obtain ⟨r, m'⟩ := left
  obtain ⟨s, n'⟩ := right
  obtain ⟨outcome, alike'⟩ := ended
  cases outcome with
  | ok h => exact ⟨.ok ⟨h, alike'⟩, trivial⟩
  | error failure => exact ⟨.error failure alike', trivial⟩

/-- A step of a longer run: something is done, or time passes. -/
inductive Move (ι : Type) where
  | act (errand : ι)
  | wait (now : Moment)

namespace Move

variable {ι κ α β : Type}

/-- How the things that are done one after the other end, and the scene that they leave. -/
def play (perform : ι → SessionAction α) : List (Move ι) → Scene → List (Except Failure α) × Scene
  | [], scene => ([], scene)
  | .act errand :: rest, scene =>
    let (outcome, client, machine) := (perform errand).exec scene.client scene.machine
    let (outcomes, after) := play perform rest ⟨client, machine⟩
    (outcome :: outcomes, after)
  | .wait now :: rest, scene => play perform rest ⟨scene.client, { scene.machine with now }⟩

def passed (perform : ι → SessionAction α) : List (Move ι) → Scene → List Machine
  | [], _ => []
  | .act errand :: rest, scene =>
    let (_, client, machine) := (perform errand).exec scene.client scene.machine
    ((perform errand).run.run scene.client).trail scene.machine ++
      passed perform rest ⟨client, machine⟩
  | .wait now :: rest, scene =>
    let after := { scene.machine with now }
    after :: passed perform rest ⟨scene.client, after⟩

/-- That the same is done in both steps, up to a relation. -/
inductive Matches (R : ι → κ → Prop) : Move ι → Move κ → Prop where
  | act {i : ι} {k : κ} (h : R i k) : Matches R (.act i) (.act k)
  | wait (now : Moment) : Matches R (.wait now) (.wait now)

omit [Runtime] in
/-- Two runs whose steps agree one by one end alike, step by step and on the whole. -/
theorem agrees {L : Likeness} {fits : OAuth.Client → Prop} {V : α → β → Prop} {R : ι → κ → Prop}
    {perform : ι → SessionAction α} {perform' : κ → SessionAction β}
    (agree : ∀ i k, R i k → SessionAction.Agrees L fits V (perform i) (perform' k))
    (waits : ∀ m n now, L.holds m n → L.holds { m with now } { n with now } ∧
      L.along [{ m with now }] [{ n with now }])
    {moves : List (Move ι)} {moves' : List (Move κ)}
    (same : List.Forall₂ (Matches R) moves moves') {first second : Scene}
    (clients : SameClient fits first.client second.client)
    (alike : L.holds first.machine second.machine) :
    List.Forall₂ (SameOutcome V) (play perform moves first).1 (play perform' moves' second).1 ∧
      L.holds (play perform moves first).2.machine (play perform' moves' second).2.machine ∧
      L.along (passed perform moves first) (passed perform' moves' second) := by
  induction same generalizing first second with
  | nil => exact ⟨.nil, alike, L.along_nil⟩
  | cons step rest ih =>
    cases step with
    | wait now =>
      obtain ⟨later, noted⟩ := waits _ _ now alike
      obtain ⟨outcomes, last, along⟩ := @ih ⟨first.client, { first.machine with now }⟩
        ⟨second.client, { second.machine with now }⟩ clients later
      exact ⟨outcomes, last, L.along_append noted along⟩
    | act h =>
      obtain ⟨⟨outcome, clients', alike'⟩, noted⟩ :=
        agree _ _ h first.client second.client clients _ _ alike
      obtain ⟨outcomes, last, along⟩ := @ih ⟨_, _⟩ ⟨_, _⟩ clients' alike'
      exact ⟨.cons outcome outcomes, last, L.along_append noted along⟩

end Move

end SessionKeeper
