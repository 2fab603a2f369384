import SessionKeeper.Proofs.Lock.Outcome

/-!
# Processes that contend for a lock

Any number of processes take and give back the lock of one key, each request by request and
in any order. A process owns the marker file from its creation on until it begins to give the
lock back. The lock is exclusive as long as nobody removes the marker file of its owner, and
no longer: the check that would prevent such a removal is made on a marker that was read
before, and the file may be another one by then.
-/
namespace SessionKeeper.Lock

/-- Processes that contend for the lock of a key in a folder. -/
structure Contest (P : Type) where
  folder : Path
  place : Location
  key : Text
  name : String
  staleAfter : Duration
  holder : P → Int
  named : fileName? key = some name
  file : Tree.IsFileName name
  lasting : 0 < staleAfter.micros
  distinct : Function.Injective holder
  short : ∀ p, (holder p).natAbs < Json.digitLimit

/-- Where a process is: the rest of what it does and the number of the marker file it has
created. -/
inductive Phase where
  | idle
  | acquiring (rest : Script (Except Failure Marker)) (file : Option Nat)
  | holding (marker : Marker) (file : Option Nat) (since : Moment)
  | releasing (rest : Script (Except Failure Unit))

def Phase.file? : Phase → Option Nat
  | .acquiring _ file => file
  | .holding _ file _ => file
  | _ => none

def Phase.since? : Phase → Option Moment
  | .holding _ _ since => some since
  | _ => none

/-- Whether the next request of a process is to remove a file. -/
def Phase.removes (path : Path) : Phase → Bool
  | .acquiring (.ask (.unlink target) _) _ => target = path
  | .releasing (.ask (.unlink target) _) => target = path
  | _ => false

/-- The file of a process after a request: one that was just created is its own. -/
def fileAfter : (request : Request) → request.Answer → Option Nat → Option Nat
  | .createFile .., .ok number, _ => some number
  | _, _, file => file

/-- The machine that the processes share, and where each of them is. -/
structure Scramble (P : Type) where
  machine : Machine
  phase : P → Phase

/-- The state after a step of one process. -/
def Scramble.move {P : Type} [DecidableEq P] (s : Scramble P) (p : P) (machine : Machine)
    (phase : Phase) : Scramble P := ⟨machine, Function.update s.phase p phase⟩

namespace Scramble

variable {P : Type} [DecidableEq P] (s : Scramble P) {p q : P} {machine : Machine} {phase : Phase}

@[simp] theorem machine_move : (s.move p machine phase).machine = machine := rfl

@[simp] theorem phase_move_self : (s.move p machine phase).phase p = phase := by
  simp [move]

theorem phase_move_of_ne (h : q ≠ p) : (s.move p machine phase).phase q = s.phase q := by
  simp [move, h]

end Scramble

variable [Runtime]

namespace Contest

section

variable {P : Type}

/-- The lock as one of the processes uses it. -/
def lock (c : Contest P) (p : P) : Lock := ⟨c.folder, c.staleAfter, c.holder p⟩

def path (c : Contest P) : Path := c.folder.child c.name

/-- The next step of a process: it begins to take the lock or to give it back, makes its next
request, or comes to the end of what it does. -/
def act [DecidableEq P] (c : Contest P) (s : Scramble P) (p : P) : Scramble P :=
  match s.phase p with
  | .idle => s.move p s.machine (.acquiring ((c.lock p).acquire c.key).run none)
  | .acquiring (.ask request next) file =>
    s.move p (s.machine.answer request).2 (.acquiring (next (s.machine.answer request).1)
      (fileAfter request (s.machine.answer request).1 file))
  | .acquiring (.done (.ok marker)) file =>
    s.move p s.machine (.holding marker file s.machine.now)
  | .acquiring (.done (.error _)) _ => s.move p s.machine .idle
  | .holding marker _ _ => s.move p s.machine (.releasing ((c.lock p).release marker).run)
  | .releasing (.ask request next) =>
    s.move p (s.machine.answer request).2 (.releasing (next (s.machine.answer request).1))
  | .releasing (.done _) => s.move p s.machine .idle

/-- The number of the file that stands where the marker belongs. -/
def standing? (c : Contest P) (s : Scramble P) : Option Nat :=
  match s.machine.under c.place c.name with
  | some (.file number _ _) => some number
  | _ => none

/-- That a process does not hold the lock so long that its marker counts as stale. -/
def InTime (c : Contest P) (now : Moment) (phase : Phase) : Prop :=
  ∀ since, phase.since? = some since →
    now.universalMicros - since.universalMicros < c.staleAfter.micros

/-- The ownership of a file: a process owns the one that it has created until it begins to give
the lock back or has held it too long. -/
structure Owns (c : Contest P) (now : Moment) (phase : Phase) (number : Nat) : Prop where
  file : phase.file? = some number
  inTime : c.InTime now phase

/-- That a process is about to remove the marker file of its owner. -/
def Trespasses (c : Contest P) (s : Scramble P) (p : P) : Prop :=
  (s.phase p).removes c.path = true ∧
    ∃ q number, c.Owns s.machine.now (s.phase q) number ∧ c.standing? s = some number

/-- Runs of the processes from a state on, with time passing. A process only takes a step
where it may. -/
inductive Run [DecidableEq P] (c : Contest P) (may : Scramble P → P → Prop) (s : Scramble P) : Scramble P → Prop where
  | start : Run c may s s
  | act {t : Scramble P} (run : Run c may s t) (p : P) (allowed : may t p) :
      Run c may s (c.act t p)
  | wait {t : Scramble P} (run : Run c may s t) (now : Moment)
      (later : t.machine.now.universalMicros ≤ now.universalMicros) :
      Run c may s ⟨{ t.machine with now }, t.phase⟩

/-- Runs in which nobody removes the marker file of its owner. -/
abbrev Peaceful [DecidableEq P] (c : Contest P) : Scramble P → Scramble P → Prop :=
  c.Run fun t p => ¬ c.Trespasses t p

/-- That at most one process is between taking the lock and giving it back. -/
def Exclusive (s : Scramble P) : Prop :=
  ∀ p q, (s.phase p).since?.isSome = true → (s.phase q).since?.isSome = true → p = q

/-- That no process has held the lock too long. -/
def Timely (c : Contest P) (s : Scramble P) : Prop := ∀ p, c.InTime s.machine.now (s.phase p)

/-- A start: the folder is there, no directory is in the marker's place, and no process has
begun. -/
structure Starts (c : Contest P) (s : Scramble P) : Prop where
  ground : Ground s.machine c.folder c.place
  plain : ∀ mode, s.machine.under c.place c.name ≠ some (.directory mode)
  idle : ∀ p, s.phase p = .idle

/-- What the rest of a process can be. -/
def Shaped (c : Contest P) : Phase → Prop
  | .idle => True
  | .acquiring rest none => rest.Seeks c.folder c.place c.name c.key
  | .acquiring rest (some number) => rest.Fills c.folder c.place c.key number
  | .holding marker file _ => marker.key = c.key ∧ file.isSome = true
  | .releasing rest => rest.Leaves c.folder c.place c.name

/-- What peace preserves: whoever owns a file has it standing in the marker's place, so there
is one owner at most. -/
structure Sound (c : Contest P) (s : Scramble P) : Prop where
  ground : Ground s.machine c.folder c.place
  plain : ∀ mode, s.machine.under c.place c.name ≠ some (.directory mode)
  shaped : ∀ p, c.Shaped (s.phase p)
  stands : ∀ p number, c.Owns s.machine.now (s.phase p) number → c.standing? s = some number
  one : ∀ p q number number', c.Owns s.machine.now (s.phase p) number →
    c.Owns s.machine.now (s.phase q) number' → p = q

variable {c : Contest P} {s : Scramble P}

omit [Runtime] in
theorem standing?_eq_some {number : Nat} : c.standing? s = some number ↔
    ∃ mode content, s.machine.under c.place c.name = some (.file number mode content) := by
  rw [standing?]
  rcases s.machine.under c.place c.name with _ | ⟨number', mode, content⟩ | mode
  · simp
  · simp
  · simp

omit [Runtime] in
theorem Starts.sound (h : c.Starts s) : c.Sound s := by
  refine ⟨h.ground, h.plain, fun p => ?_, fun p number hp => ?_, fun p q number _ hp => ?_⟩
  · rw [h.idle p]
    trivial
  · rw [h.idle p] at hp
    nomatch hp.file
  · rw [h.idle p] at hp
    nomatch hp.file

omit [Runtime] in
/-- A process that does not trespass removes a file only while nobody owns one. -/
theorem Sound.free (h : c.Sound s) {p : P} (peace : ¬ c.Trespasses s p)
    (removes : (s.phase p).removes c.path = true) (q : P) (number : Nat) :
    ¬ c.Owns s.machine.now (s.phase q) number :=
  fun hq => peace ⟨removes, q, number, hq, h.stands q number hq⟩

omit [Runtime] in
theorem not_trespasses {p : P} (h : (s.phase p).removes c.path = false) : ¬ c.Trespasses s p := by
  rintro ⟨removes, -⟩
  rw [h] at removes
  nomatch removes

omit [Runtime] in
/-- Nobody trespasses where no file stands. -/
theorem not_trespasses_of_absent {p : P} (free : s.machine.under c.place c.name = none) :
    ¬ c.Trespasses s p := by
  rintro ⟨-, q, number, -, stands⟩
  obtain ⟨_, _, hs⟩ := standing?_eq_some.mp stands
  rw [free] at hs
  nomatch hs

omit [Runtime] in
/-- With time nobody comes to own a file. -/
theorem Owns.of_later {now later : Moment} (hl : now.universalMicros ≤ later.universalMicros)
    {phase : Phase} {number : Nat} (h : c.Owns later phase number) : c.Owns now phase number := by
  refine ⟨h.file, fun since hs => ?_⟩
  have inTime := h.inTime since hs
  omega

omit [Runtime] in
/-- Time may pass. -/
theorem Sound.wait (h : c.Sound s) {now : Moment}
    (later : s.machine.now.universalMicros ≤ now.universalMicros) :
    c.Sound ⟨{ s.machine with now }, s.phase⟩ where
  ground := ⟨h.ground.leads, h.ground.stands, h.ground.numbered⟩
  plain := h.plain
  shaped := h.shaped
  stands p number hp := h.stands p number (hp.of_later later)
  one p q number number' hp hq := h.one p q number number' (hp.of_later later) (hq.of_later later)

omit [Runtime] in
theorem Sound.exists_owns (h : c.Sound s) {p : P} (holds : (s.phase p).since?.isSome = true)
    (inTime : c.InTime s.machine.now (s.phase p)) :
    ∃ number, c.Owns s.machine.now (s.phase p) number := by
  have shaped := h.shaped p
  cases hp : s.phase p with
  | holding marker file since =>
    rw [hp] at shaped inTime
    obtain ⟨number, hn⟩ := Option.isSome_iff_exists.mp shaped.2
    exact ⟨number, hn, inTime⟩
  | _ =>
    rw [hp] at holds
    nomatch holds

omit [Runtime] in
/-- While no process has held the lock too long, one holds it at most. -/
theorem Sound.exclusive (h : c.Sound s) (timely : c.Timely s) : Exclusive s := by
  intro p q hp hq
  obtain ⟨number, hn⟩ := h.exists_owns hp (timely p)
  obtain ⟨number', hn'⟩ := h.exists_owns hq (timely q)
  exact h.one p q number number' hn hn'

theorem printed (c : Contest P) (p : P) (now : Moment) :
    ∃ content, Record.octetsOf (Marker.toJson ⟨c.key, now, (c.lock p).holder⟩) = .ok content :=
  Marker.exists_octets (c.short p)

omit [Runtime] in
theorem removes_of_isLook {path : Path} {request : Request}
    {file : Option Nat} (look : request.isLook c.folder = true)
    (next : request.Answer → Script (Except Failure Marker)) :
    (Phase.acquiring (.ask request next) file).removes path = false := by
  cases request with
  | unlink path => simp [Request.isLook] at look
  | _ => rfl

omit [Runtime] in
theorem fileAfter_of_isLook {folder : Path} {request : Request}
    (look : request.isLook folder = true) (answer : request.Answer) (file : Option Nat) :
    fileAfter request answer file = file := by
  cases request with
  | createFile path mode => simp [Request.isLook] at look
  | _ => rfl

end

variable {P : Type} [DecidableEq P] {c : Contest P} {s t : Scramble P}

section

variable {p : P} {request : Request} {file : Option Nat} {marker : Marker} {since : Moment}

theorem act_idle (hp : s.phase p = .idle) :
    c.act s p = s.move p s.machine (.acquiring ((c.lock p).acquire c.key).run none) := by
  rw [act, hp]

theorem act_ask {next : request.Answer → Script (Except Failure Marker)}
    (hp : s.phase p = .acquiring (.ask request next) file) :
    c.act s p = s.move p (s.machine.answer request).2
      (.acquiring (next (s.machine.answer request).1)
        (fileAfter request (s.machine.answer request).1 file)) := by
  rw [act, hp]

theorem act_taken (hp : s.phase p = .acquiring (.done (.ok marker)) file) :
    c.act s p = s.move p s.machine (.holding marker file s.machine.now) := by
  rw [act, hp]

theorem act_refused {failure : Failure} (hp : s.phase p = .acquiring (.done (.error failure)) file) :
    c.act s p = s.move p s.machine .idle := by
  rw [act, hp]

theorem act_holding (hp : s.phase p = .holding marker file since) :
    c.act s p = s.move p s.machine (.releasing ((c.lock p).release marker).run) := by
  rw [act, hp]

theorem act_leave {next : request.Answer → Script (Except Failure Unit)}
    (hp : s.phase p = .releasing (.ask request next)) :
    c.act s p = s.move p (s.machine.answer request).2
      (.releasing (next (s.machine.answer request).1)) := by
  rw [act, hp]

theorem act_left {outcome : Except Failure Unit} (hp : s.phase p = .releasing (.done outcome)) :
    c.act s p = s.move p s.machine .idle := by
  rw [act, hp]

end

omit [Runtime] in
/-- A process may go on with other things as long as it does not own more than before and the
same file stands. -/
theorem Sound.move (h : c.Sound s) (p : P) {machine : Machine} {phase : Phase}
    (ground : Ground machine c.folder c.place) (now : machine.now = s.machine.now)
    (plain : ∀ mode, machine.under c.place c.name ≠ some (.directory mode))
    (shaped : c.Shaped phase)
    (owns : ∀ number, c.Owns s.machine.now phase number → c.Owns s.machine.now (s.phase p) number)
    (same : ∀ q number, c.Owns s.machine.now (s.phase q) number →
      c.standing? ⟨machine, s.phase⟩ = some number) :
    c.Sound (s.move p machine phase) := by
  have owned (q : P) (number : Nat)
      (hq : c.Owns machine.now ((s.move p machine phase).phase q) number) :
      c.Owns s.machine.now (s.phase q) number := by
    rw [now] at hq
    by_cases hqp : q = p
    · subst hqp
      rw [s.phase_move_self] at hq
      exact owns number hq
    · rwa [s.phase_move_of_ne hqp] at hq
  refine ⟨ground, plain, fun q => ?_, fun q number hq => ?_, fun q r number number' hq hr => ?_⟩
  · by_cases hqp : q = p
    · subst hqp
      rwa [s.phase_move_self]
    · rw [s.phase_move_of_ne hqp]
      exact h.shaped q
  · exact same q number (owned q number hq)
  · exact h.one q r number number' (owned q number hq) (owned r number' hr)

omit [Runtime] in
/-- A step that leaves the files as they are. -/
theorem Sound.look (h : c.Sound s) (p : P) {machine : Machine} {phase : Phase}
    (fixed : s.machine.SameCircumstances machine) (tree : machine.tree = s.machine.tree)
    (shaped : c.Shaped phase)
    (owns : ∀ number, c.Owns s.machine.now phase number → c.Owns s.machine.now (s.phase p) number) :
    c.Sound (s.move p machine phase) := by
  have only : ChangedOnly c.place (fun _ => False) s.machine machine := .of_tree tree
  have under : machine.under c.place c.name = s.machine.under c.place c.name :=
    only.under not_false
  refine h.move p (h.ground.kept only fixed (tree ▸ h.ground.numbered)) fixed.now (fun mode => ?_)
    shaped owns fun q number hq => ?_
  · rw [under]
    exact h.plain mode
  · rw [standing?_eq_some]
    show ∃ mode content, machine.under c.place c.name = _
    rw [under]
    exact standing?_eq_some.mp (h.stands q number hq)

omit [Runtime] in
/-- A look is a step that leaves the files as they are. -/
theorem Sound.answer_look (h : c.Sound s) (p : P) {request : Request} {phase : Phase}
    (look : request.isLook c.folder = true) (shaped : c.Shaped phase)
    (owns : ∀ number, c.Owns s.machine.now phase number → c.Owns s.machine.now (s.phase p) number) :
    c.Sound (s.move p (s.machine.answer request).2 phase) :=
  h.look p (s.machine.answer_fixed request) (Request.tree_of_isLook look h.ground) shaped owns

omit [Runtime] in
theorem Sound.answer_unlink (h : c.Sound s) (p : P) {phase : Phase}
    (free : ∀ q number, ¬ c.Owns s.machine.now (s.phase q) number) (shaped : c.Shaped phase)
    (file : phase.file? = none) :
    c.Sound (s.move p (s.machine.answer (.unlink c.path)).2 phase) := by
  have unowned (number : Nat) (owns : c.Owns s.machine.now phase number) :
      c.Owns s.machine.now (s.phase p) number := by
    have hf := owns.file
    rw [file] at hf
    nomatch hf
  have ha : s.machine.answer (.unlink c.path) = _ := h.ground.answer_unlink c.file
  cases hu : s.machine.under c.place c.name with
  | none =>
    rw [hu] at ha
    rw [ha]
    exact h.look p (.refl _) rfl shaped unowned
  | some node =>
    cases node with
    | directory mode => exact absurd hu (h.plain mode)
    | file number mode content =>
      rw [hu] at ha
      have gone := Ground.under_without s.machine c.place c.name
      have g := h.ground.answer ha (Ground.changedOnly_without c.name h.plain)
      rw [ha]
      refine h.move p g rfl (fun mode => ?_) shaped unowned fun q number hq => absurd hq (free q number)
      rw [gone]
      simp

theorem Sound.answer_create (h : c.Sound s) (p : P) {mode : Nat}
    {next : Except FileFault Nat → Script (Except Failure Marker)}
    (hp : s.phase p = .acquiring (.ask (.createFile c.path mode) next) none)
    (refused : ∀ fault, (next (.error fault)).Seeks c.folder c.place c.name c.key)
    (made : ∀ number, (next (.ok number)).Fills c.folder c.place c.key number) :
    c.Sound (c.act s p) := by
  have ha : s.machine.answer (.createFile c.path mode) = _ := h.ground.create_child c.file mode
  rw [act_ask hp]
  cases hu : s.machine.under c.place c.name with
  | some node =>
    rw [hu] at ha
    rw [ha]
    exact h.look p (.refl _) rfl (refused .present) fun number owns => nomatch owns.file
  | none =>
    rw [hu] at ha
    rw [ha]
    have free (q : P) (number : Nat) : ¬ c.Owns s.machine.now (s.phase q) number := by
      intro hq
      obtain ⟨_, _, hs⟩ := standing?_eq_some.mp (h.stands q number hq)
      rw [hu] at hs
      nomatch hs
    have under := Ground.under_withFile s.machine c.place c.name (Tree.masked mode) []
    have own (q : P) (number : Nat) (hq : c.Owns s.machine.now ((s.move p
        (Ground.withFile s.machine c.place c.name (Tree.masked mode) [])
        (.acquiring (next (.ok s.machine.tree.nextNumber)) (some s.machine.tree.nextNumber))).phase
          q) number) : q = p ∧ s.machine.tree.nextNumber = number := by
      by_cases hqp : q = p
      · subst hqp
        rw [s.phase_move_self] at hq
        exact ⟨rfl, by simpa [Phase.file?] using hq.file⟩
      · rw [s.phase_move_of_ne hqp] at hq
        exact absurd hq (free q number)
    refine ⟨h.ground.answer ha (Ground.changedOnly_withFile c.name _ [] hu), fun _ => ?_,
      fun q => ?_, fun q number hq => ?_, fun q r number number' hq hr => ?_⟩
    · show Machine.under _ _ _ ≠ _
      rw [Scramble.machine_move, under]
      simp
    · by_cases hqp : q = p
      · subst hqp
        rw [s.phase_move_self]
        exact made _
      · rw [s.phase_move_of_ne hqp]
        exact h.shaped q
    · rw [standing?_eq_some, ← (own q number hq).2]
      exact ⟨_, _, under⟩
    · rw [(own q number hq).1, (own r number' hr).1]

omit [Runtime] in
theorem Sound.answer_write (h : c.Sound s) (p : P) {number : Nat}
    (own : c.Owns s.machine.now (s.phase p) number) (content : Octets) {phase : Phase}
    (shaped : c.Shaped phase)
    (owns : ∀ number, c.Owns s.machine.now phase number → c.Owns s.machine.now (s.phase p) number) :
    c.Sound (s.move p (s.machine.answer (.writeFile number content)).2 phase) := by
  obtain ⟨mode, old, hu⟩ := standing?_eq_some.mp (h.stands p number own)
  obtain ⟨only, under⟩ := h.ground.answer_writeFile hu content
  refine h.move p (h.ground.answer rfl only) rfl (fun _ => ?_) shaped owns fun q number' hq => ?_
  · rw [under]
    simp
  · rw [standing?_eq_some]
    have same : number' = number := by
      have hs := h.stands q number' hq
      rw [h.stands p number own] at hs
      exact (Option.some.inj hs).symm
    exact ⟨mode, content, same ▸ under⟩

/-- A step of a process that is about to seek the lock. -/
theorem Sound.act_seeks (h : c.Sound s) {p : P} (peace : ¬ c.Trespasses s p)
    {rest : Script (Except Failure Marker)} (hp : s.phase p = .acquiring rest none)
    (seeks : rest.Seeks c.folder c.place c.name c.key) : c.Sound (c.act s p) := by
  cases seeks with
  | fail failure =>
    rw [act_refused hp]
    exact h.look p (.refl _) rfl trivial fun _ owns => nomatch owns.file
  | create mode next refused made => exact h.answer_create p hp refused made
  | unlink next rest succeeds =>
    rw [act_ask hp]
    have removes : (s.phase p).removes c.path = true := by
      rw [hp]
      exact decide_eq_true rfl
    exact h.answer_unlink p (h.free peace removes) (rest _) rfl
  | look request next look rest =>
    rw [act_ask hp]
    have same := fileAfter_of_isLook look (s.machine.answer request).1 none
    rw [same]
    exact h.answer_look p look (rest _ h.ground) fun _ owns => nomatch owns.file

theorem Sound.act_fills (h : c.Sound s) {p : P} {number : Nat}
    {rest : Script (Except Failure Marker)} (hp : s.phase p = .acquiring rest (some number))
    (fills : rest.Fills c.folder c.place c.key number) : c.Sound (c.act s p) := by
  have own : c.Owns s.machine.now (s.phase p) number := by
    rw [hp]
    exact ⟨rfl, nofun⟩
  cases fills with
  | taken marker key =>
    rw [act_taken hp]
    exact h.look p (.refl _) rfl ⟨key, rfl⟩ fun _ owns =>
      Option.some.inj owns.file ▸ own
  | write content next rest =>
    rw [act_ask hp]
    exact h.answer_write p own content rest fun _ owns =>
      Option.some.inj owns.file ▸ own
  | look request next look rest =>
    rw [act_ask hp]
    have same := fileAfter_of_isLook look (s.machine.answer request).1 (some number)
    rw [same]
    exact h.answer_look p look (rest _ h.ground) fun _ owns =>
      Option.some.inj owns.file ▸ own

/-- A step of a process that gives the lock back. -/
theorem Sound.act_leaves (h : c.Sound s) {p : P} (peace : ¬ c.Trespasses s p)
    {rest : Script (Except Failure Unit)} (hp : s.phase p = .releasing rest)
    (leaves : rest.Leaves c.folder c.place c.name) : c.Sound (c.act s p) := by
  cases leaves with
  | done outcome =>
    rw [act_left hp]
    exact h.look p (.refl _) rfl trivial fun _ owns => nomatch owns.file
  | unlink next rest =>
    rw [act_leave hp]
    have removes : (s.phase p).removes c.path = true := by
      rw [hp]
      exact decide_eq_true rfl
    exact h.answer_unlink p (h.free peace removes) (rest _).leaves rfl
  | look request next look rest =>
    rw [act_leave hp]
    exact h.answer_look p look (rest _ h.ground) fun _ owns => nomatch owns.file

/-- A step that is no trespass keeps one owner at most. -/
theorem Sound.act (h : c.Sound s) {p : P} (peace : ¬ c.Trespasses s p) : c.Sound (c.act s p) := by
  have shaped := h.shaped p
  cases hp : s.phase p with
  | idle =>
    rw [act_idle hp]
    exact h.look p (.refl _) rfl (acquire_seeks rfl c.file c.named (c.printed p)) fun _ owns =>
      nomatch owns.file
  | acquiring rest file =>
    rw [hp] at shaped
    cases file with
    | none => exact h.act_seeks peace hp shaped
    | some number => exact h.act_fills hp shaped
  | holding marker file since =>
    rw [hp] at shaped
    rw [act_holding hp]
    have named : fileName? marker.key = some c.name := shaped.1 ▸ c.named
    have same : (c.lock p).folder = c.folder := rfl
    have leaves : ((c.lock p).release marker).Leaves c.folder c.place c.name :=
      release_leaves same named
    exact h.look p (.refl _) rfl leaves fun _ owns => nomatch owns.file
  | releasing rest =>
    rw [hp] at shaped
    exact h.act_leaves peace hp shaped

/-- Peace keeps one owner at most. -/
theorem Sound.of_peaceful (h : c.Sound s) (run : c.Peaceful s t) : c.Sound t := by
  induction run with
  | start => exact h
  | act run p allowed ih => exact ih.act allowed
  | wait run now later ih => exact ih.wait later

end Contest

end SessionKeeper.Lock
