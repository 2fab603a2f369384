import SessionKeeper.Proofs.Lock.Contest

/-!
# Removing the marker file of its owner

Removing the marker file of a process that owns it is what breaks a lock, and nothing else
is. Before it one process holds the lock at most, if none holds it too long. After it the process that
removed the file and the process that had created it both come to hold the lock, each by steps of
its own that remove nothing from an owner, and no time has to pass.
-/
namespace SessionKeeper

namespace Lock

theorem acquire_succeeds [Runtime] {lock : Lock} {folder : Path} {place : Location} {key : Text}
    {name : String} (hf : lock.folder = folder) (hk : fileName? key = some name)
    (hn : Tree.IsFileName name) (short : lock.holder.natAbs < Json.digitLimit) :
    (lock.acquire key).run.Succeeds folder place name := by
  intro machine g free
  obtain ⟨after, he, -⟩ := acquire_absent hf g hk hn short free
  exact ⟨_, congrArg Prod.fst he⟩

namespace Contest

section

variable [Runtime] {P : Type} {c : Contest P} {s t u : Scramble P} {p q : P}

omit [Runtime] in
/-- Who is about to remove the marker file either seeks the lock, and would take it right after
the removal, or gives it back. -/
theorem Sound.removes_cases (h : c.Sound s) (removes : (s.phase p).removes c.path = true) :
    (∃ next, s.phase p = .acquiring (.ask (.unlink (c.folder.child c.name)) next) none ∧
      (next (.ok ())).Seeks c.folder c.place c.name c.key ∧
        (next (.ok ())).Succeeds c.folder c.place c.name) ∨
    ∃ next, s.phase p = .releasing (.ask (.unlink (c.folder.child c.name)) next) ∧
      (next (.ok ())).Looks c.folder c.place := by
  have shaped := h.shaped p
  cases hp : s.phase p with
  | idle =>
    rw [hp] at removes
    cases removes
  | holding marker file since =>
    rw [hp] at removes
    cases removes
  | acquiring rest file =>
    rw [hp] at removes shaped
    cases file with
    | none =>
      cases shaped with
      | fail failure => cases removes
      | create mode next refused made => cases removes
      | unlink next rest succeeds => exact .inl ⟨next, rfl, rest _, succeeds⟩
      | look request next look rest =>
        rw [removes_of_isLook look] at removes
        cases removes
    | some number =>
      cases shaped with
      | taken marker own => cases removes
      | write content next rest => cases removes
      | look request next look rest =>
        rw [removes_of_isLook look] at removes
        cases removes
  | releasing rest =>
    rw [hp] at removes shaped
    cases shaped with
    | done outcome => cases removes
    | unlink next rest => exact .inr ⟨next, rfl, rest _⟩
    | look request next look rest =>
      cases request with
      | unlink path => simp [Request.isLook] at look
      | _ => cases removes

variable [DecidableEq P]

/-- A step of a process leaves the clock and the other processes alone. -/
theorem act_others (c : Contest P) (s : Scramble P) (p : P) :
    (c.act s p).machine.now = s.machine.now ∧ ∀ q, q ≠ p → (c.act s p).phase q = s.phase q := by
  have moved (machine : Machine) (phase : Phase) (same : s.machine.SameCircumstances machine) :
      (s.move p machine phase).machine.now = s.machine.now ∧
        ∀ q, q ≠ p → (s.move p machine phase).phase q = s.phase q :=
    ⟨same.now, fun q hq => s.phase_move_of_ne hq⟩
  rw [act]
  split
  · exact moved _ _ (.refl _)
  · exact moved _ _ (s.machine.answer_fixed _)
  · exact moved _ _ (.refl _)
  · exact moved _ _ (.refl _)
  · exact moved _ _ (.refl _)
  · exact moved _ _ (s.machine.answer_fixed _)
  · exact moved _ _ (.refl _)

theorem Run.trans {may : Scramble P → P → Prop} (first : c.Run may s t) (rest : c.Run may t u) :
    c.Run may s u := by
  induction rest with
  | start => exact first
  | act run p allowed ih => exact .act ih p allowed
  | wait run now later ih => exact .wait ih now later

/-- That a process comes to hold the lock by steps of its own, in no time and in peace. -/
structure Takes (c : Contest P) (p : P) (s t : Scramble P) : Prop where
  run : c.Peaceful s t
  holds : (t.phase p).since? = some s.machine.now
  others : ∀ q, q ≠ p → t.phase q = s.phase q
  now : t.machine.now = s.machine.now
  ground : Ground t.machine c.folder c.place

theorem Takes.step (peace : ¬ c.Trespasses s p) (h : c.Takes p (c.act s p) t) : c.Takes p s t := by
  obtain ⟨now, others⟩ := c.act_others s p
  refine ⟨.trans (.act .start p peace) h.run, ?_, fun q hq => ?_, h.now.trans now, h.ground⟩
  · rw [← now]
    exact h.holds
  · rw [h.others q hq, others q hq]

theorem takes_of_taken {marker : Marker} {file : Option Nat} (g : Ground s.machine c.folder c.place)
    (hp : s.phase p = .acquiring (.done (.ok marker)) file) : c.Takes p s (c.act s p) := by
  obtain ⟨now, others⟩ := c.act_others s p
  have peace : ¬ c.Trespasses s p := not_trespasses (by rw [hp]; rfl)
  refine ⟨.act .start p peace, ?_, others, now, ?_⟩
  · rw [act_taken hp, s.phase_move_self]
    rfl
  · rw [act_taken hp]
    exact g

section

variable {request : Request} {file : Option Nat} {number : Nat}

/-- A process that fills its file goes on to hold the lock, even when the file is gone. -/
theorem exists_takes_of_fills {rest : Script (Except Failure Marker)}
    (fills : rest.Fills c.folder c.place c.key number) (g : Ground s.machine c.folder c.place)
    (hp : s.phase p = .acquiring rest file) : ∃ t, c.Takes p s t := by
  induction fills generalizing s with
  | taken marker own => exact ⟨_, takes_of_taken g hp⟩
  | write content next rest ih =>
    have peace : ¬ c.Trespasses s p := not_trespasses (by rw [hp]; rfl)
    obtain ⟨t, ht⟩ := ih (s := c.act s p) (by rw [act_ask hp]; exact g.kept_writeFile _ _)
      (by rw [act_ask hp, s.phase_move_self]; rfl)
    exact ⟨t, ht.step peace⟩
  | look request next look rest ih =>
    have peace : ¬ c.Trespasses s p := not_trespasses (by rw [hp]; exact removes_of_isLook look next)
    have only : ChangedOnly c.place (fun _ => False) s.machine (s.machine.answer request).2 :=
      .of_tree (Request.tree_of_isLook look g)
    obtain ⟨t, ht⟩ := ih s.machine g (s := c.act s p) (by rw [act_ask hp]; exact g.answer rfl only)
      (by rw [act_ask hp, s.phase_move_self, fileAfter_of_isLook look])
    exact ⟨t, ht.step peace⟩

/-- A process that seeks the lock where no marker file stands goes on to hold it, when it would
by running on. -/
theorem exists_takes_of_seeks {rest : Script (Except Failure Marker)}
    (seeks : rest.Seeks c.folder c.place c.name c.key) (g : Ground s.machine c.folder c.place)
    (free : s.machine.under c.place c.name = none) (hp : s.phase p = .acquiring rest none)
    {marker : Marker} (ok : (rest.run s.machine).1 = .ok marker) : ∃ t, c.Takes p s t := by
  -- No step of this run is a trespass, since no file stands that it could remove. That no file
  -- stands is kept up to the creation, after which the file is the process's own.
  have peace : ¬ c.Trespasses s p := not_trespasses_of_absent free
  induction seeks generalizing s with
  | fail failure => nomatch ok
  | create mode next refused made ih =>
    have ha : s.machine.answer (.createFile (c.folder.child c.name) mode) =
        (.ok s.machine.tree.nextNumber,
        Ground.withFile s.machine c.place c.name (Tree.masked mode) []) := by
      have h := g.create_child c.file mode
      rwa [free] at h
    have act : c.act s p = _ := act_ask hp
    rw [ha] at act
    obtain ⟨t, ht⟩ := exists_takes_of_fills (made _) (s := c.act s p)
      (by rw [act]; exact g.answer ha (Ground.changedOnly_withFile c.name _ [] free))
      (by rw [act, s.phase_move_self])
    exact ⟨t, ht.step peace⟩
  | unlink next rest succeeds ih =>
    have ha : s.machine.answer (.unlink (c.folder.child c.name)) = (.error .absent, s.machine) := by
      have h := g.answer_unlink c.file
      rwa [free] at h
    have act : c.act s p = _ := act_ask hp
    rw [ha] at act
    have on : ((next (s.machine.answer (.unlink (c.folder.child c.name))).1).run
        (s.machine.answer (.unlink (c.folder.child c.name))).2).1 = .ok marker := ok
    rw [ha] at on
    have still : (c.act s p).machine.under c.place c.name = none := by rw [act]; exact free
    obtain ⟨t, ht⟩ := ih (.error .absent) (s := c.act s p) (by rw [act]; exact g) still
      (by rw [act, s.phase_move_self]; rfl) (by rw [act]; exact on) (not_trespasses_of_absent still)
    exact ⟨t, ht.step peace⟩
  | look request next look rest ih =>
    have act : c.act s p = _ := act_ask hp
    have tree := Request.tree_of_isLook look g
    have only : ChangedOnly c.place (fun _ => False) s.machine (s.machine.answer request).2 := .of_tree tree
    have still : (c.act s p).machine.under c.place c.name = none := by
      rw [act]
      exact (only.under not_false).trans free
    obtain ⟨t, ht⟩ := ih s.machine g (s := c.act s p) (by rw [act]; exact g.answer rfl only) still
      (by rw [act, s.phase_move_self, fileAfter_of_isLook look]) (by rw [act]; exact ok)
      (not_trespasses_of_absent still)
    exact ⟨t, ht.step peace⟩

/-- A process that has just given the lock back, so that no marker file stands, can take it again. -/
theorem exists_takes_of_looks {rest : Script (Except Failure Unit)}
    (looks : rest.Looks c.folder c.place) (g : Ground s.machine c.folder c.place)
    (free : s.machine.under c.place c.name = none) (hp : s.phase p = .releasing rest) :
    ∃ t, c.Takes p s t := by
  have peace : ¬ c.Trespasses s p := not_trespasses_of_absent free
  induction looks generalizing s with
  | done outcome =>
    have left : c.act s p = _ := act_left hp
    have idle : (c.act s p).phase p = .idle := by rw [left, s.phase_move_self]
    have begun : c.act (c.act s p) p = _ := act_idle idle
    have same : (c.act (c.act s p) p).machine = s.machine := by rw [begun, left]; rfl
    have seeks : ((c.lock p).acquire c.key).Seeks c.folder c.place c.name c.key :=
      acquire_seeks rfl c.file c.named (c.printed p)
    have hf : (c.lock p).folder = c.folder := rfl
    obtain ⟨marker, ok⟩ := acquire_succeeds hf c.named c.file (c.short p) s.machine g free
    obtain ⟨t, ht⟩ := exists_takes_of_seeks (s := c.act (c.act s p) p) seeks
      (by rw [same]; exact g) (by rw [same]; exact free) (by rw [begun]; exact Scramble.phase_move_self _)
      (by rw [same]; exact ok)
    have peaceful : ¬ c.Trespasses (c.act s p) p :=
      not_trespasses_of_absent (by rw [left]; exact free)
    exact ⟨t, (ht.step peaceful).step peace⟩
  | ask request next look rest ih =>
    have act : c.act s p = _ := act_leave hp
    have only : ChangedOnly c.place (fun _ => False) s.machine (s.machine.answer request).2 :=
      .of_tree (Request.tree_of_isLook look g)
    have still : (c.act s p).machine.under c.place c.name = none := by
      rw [act]
      exact (only.under not_false).trans free
    obtain ⟨t, ht⟩ := ih s.machine g (s := c.act s p) (by rw [act]; exact g.answer rfl only) still
      (by rw [act, s.phase_move_self]) (not_trespasses_of_absent still)
    exact ⟨t, ht.step peace⟩

end

/-- Who removes the file of another process goes on to hold the lock. -/
theorem Sound.exists_takes_of_trespasses (h : c.Sound s) (trespass : c.Trespasses s p) :
    ∃ t, c.Takes p (c.act s p) t := by
  obtain ⟨removes, q, number, -, stands⟩ := trespass
  obtain ⟨mode, content, hu⟩ := standing?_eq_some.mp stands
  have ha : s.machine.answer (.unlink (c.folder.child c.name)) =
      (.ok (), Ground.without s.machine c.place c.name) := by
    have ha := h.ground.answer_unlink c.file
    rwa [hu] at ha
  have g : Ground (Ground.without s.machine c.place c.name) c.folder c.place :=
    h.ground.answer ha (Ground.changedOnly_without c.name h.plain)
  have free := Ground.under_without s.machine c.place c.name
  rcases h.removes_cases removes with ⟨next, hp, seeks, succeeds⟩ | ⟨next, hp, looks⟩
  · have act : c.act s p = _ := act_ask hp
    rw [ha] at act
    obtain ⟨marker, ok⟩ := succeeds _ g free
    exact exists_takes_of_seeks seeks (by rw [act]; exact g) (by rw [act]; exact free)
      (by rw [act, s.phase_move_self]; rfl) (by rw [act]; exact ok)
  · have act : c.act s p = _ := act_leave hp
    rw [ha] at act
    exact exists_takes_of_looks looks (by rw [act]; exact g) (by rw [act]; exact free)
      (by rw [act, s.phase_move_self])

theorem Takes.inTime (h : c.Takes p s t) : c.InTime t.machine.now (t.phase p) := by
  intro since hs
  rw [h.holds] at hs
  rw [h.now, ← Option.some.inj hs, Int.sub_self]
  exact c.lasting

theorem exists_holding_of_owner {number : Nat} (g : Ground s.machine c.folder c.place)
    (shaped : c.Shaped (s.phase q)) (owns : c.Owns s.machine.now (s.phase q) number) :
    ∃ t, c.Peaceful s t ∧ (t.phase q).since?.isSome = true ∧
      c.InTime t.machine.now (t.phase q) ∧ (∀ p, p ≠ q → t.phase p = s.phase p) ∧
        t.machine.now = s.machine.now := by
  have owned := owns.file
  cases hq : s.phase q with
  | idle =>
    rw [hq] at owned
    nomatch owned
  | releasing rest =>
    rw [hq] at owned
    nomatch owned
  | holding marker file since =>
    exact ⟨s, .start, by rw [hq]; rfl, owns.inTime, fun _ _ => rfl, rfl⟩
  | acquiring rest file =>
    rw [hq] at owned shaped
    cases file with
    | none => nomatch owned
    | some number =>
      obtain ⟨t, ht⟩ := exists_takes_of_fills shaped g hq
      exact ⟨t, ht.run, by rw [ht.holds]; rfl, ht.inTime, ht.others, ht.now⟩

/-- Whoever holds the lock too long may begin to give it back. -/
theorem exists_timely (late : List P) (s : Scramble P)
    (rest : ∀ p, p ∉ late → c.InTime s.machine.now (s.phase p)) :
    ∃ t, c.Peaceful s t ∧ t.machine.now = s.machine.now ∧ c.Timely t ∧
      ∀ p, c.InTime s.machine.now (s.phase p) → t.phase p = s.phase p := by
  -- On the list of those that may be late: each that is late takes one step, out of the section.
  induction late generalizing s with
  | nil => exact ⟨s, .start, rfl, fun p => rest p (by simp), fun _ _ => rfl⟩
  | cons q late ih =>
    by_cases hq : c.InTime s.machine.now (s.phase q)
    · refine ih s fun p hp => ?_
      by_cases hpq : p = q
      · rwa [hpq]
      · exact rest p (by simp [hpq, hp])
    · obtain ⟨now, others⟩ := c.act_others s q
      cases hphase : s.phase q with
      | holding marker file since =>
        have peace : ¬ c.Trespasses s q := not_trespasses (by rw [hphase]; rfl)
        have free : c.InTime (c.act s q).machine.now ((c.act s q).phase q) := by
          rw [act_holding hphase, s.phase_move_self]
          exact nofun
        obtain ⟨t, run, still, timely, same⟩ := ih (c.act s q) fun p hp => by
          by_cases hpq : p = q
          · rwa [hpq]
          · rw [now, others p hpq]
            exact rest p (by simp [hpq, hp])
        refine ⟨t, .trans (.act .start q peace) run, still.trans now, timely, fun p hp => ?_⟩
        have hpq : p ≠ q := fun h => hq (h ▸ hp)
        rw [← others p hpq] at hp ⊢
        exact same p (now ▸ hp)
      | _ =>
        rw [hphase] at hq
        exact absurd nofun hq

/-- Only finitely many processes have begun. -/
theorem Starts.exists_begun {may : Scramble P → P → Prop} (starts : c.Starts s)
    (run : c.Run may s t) : ∃ begun : List P, ∀ p, p ∉ begun → t.phase p = .idle := by
  induction run with
  | start => exact ⟨[], fun p _ => starts.idle p⟩
  | @act u run q allowed ih =>
    obtain ⟨begun, h⟩ := ih
    refine ⟨q :: begun, fun p hp => ?_⟩
    simp only [List.mem_cons, not_or] at hp
    rw [(c.act_others u q).2 p hp.1, h p hp.2]
  | wait run now later ih => exact ih

/-- After a trespass two processes come to hold the lock at once and in time, by steps that are no
trespass. -/
theorem Sound.exists_of_trespasses (h : c.Sound s) (trespass : c.Trespasses s p) (begun : List P)
    (rest : ∀ q, q ∉ begun → s.phase q = .idle) :
    ∃ u, c.Peaceful (c.act s p) u ∧ u.machine.now = s.machine.now ∧ c.Timely u ∧ ¬ Exclusive u := by
  obtain ⟨now, others⟩ := c.act_others s p
  obtain ⟨t, ht⟩ := h.exists_takes_of_trespasses trespass
  obtain ⟨removes, q, number, owns, -⟩ := trespass
  have hqp : q ≠ p := by
    rintro rfl
    have owned := owns.file
    rcases h.removes_cases removes with ⟨next, hp, -⟩ | ⟨next, hp, -⟩
    · rw [hp] at owned
      nomatch owned
    · rw [hp] at owned
      nomatch owned
  have same : t.phase q = s.phase q := (ht.others q hqp).trans (others q hqp)
  have clock : t.machine.now = s.machine.now := ht.now.trans now
  obtain ⟨u, run, holds, inTime, still, later⟩ := exists_holding_of_owner (c := c) (q := q) ht.ground
    (same ▸ h.shaped q) (by rw [same, clock]; exact owns)
  have taken : u.phase p = t.phase p := still p hqp.symm
  have idle : ∀ r, r ∉ p :: q :: begun → c.InTime u.machine.now (u.phase r) := by
    intro r hr
    simp only [List.mem_cons, not_or] at hr
    rw [still r hr.2.1, ht.others r hr.1, others r hr.1, rest r hr.2.2]
    exact nofun
  obtain ⟨v, end_run, end_now, timely, kept⟩ := exists_timely (p :: q :: begun) u idle
  refine ⟨v, (ht.run.trans run).trans end_run, end_now.trans (later.trans clock), timely, fun one => ?_⟩
  refine hqp (one q p ?_ ?_)
  · rw [kept q inTime]
    exact holds
  · rw [kept p (by rw [taken, later]; exact ht.inTime), taken, ht.holds]
    rfl

/-- Of processes that contend for a lock, and none of which holds it too long, one holds it at
most as long as no process removes the marker file of its owner. This condition cannot be relaxed:
from every state that was reached in peace each such removal leads on, in peace and at once, to two
holders. -/
theorem exclusive_and_trespasses_iff (starts : c.Starts s) (peace : c.Peaceful s t) :
    (c.Timely t → Exclusive t) ∧ ∀ p, c.Trespasses t p ↔ ∃ u, c.Peaceful (c.act t p) u ∧
      u.machine.now = t.machine.now ∧ c.Timely u ∧ ¬ Exclusive u := by
  have sound : c.Sound t := starts.sound.of_peaceful peace
  obtain ⟨begun, rest⟩ := starts.exists_begun peace
  refine ⟨sound.exclusive, fun p => ⟨fun h => sound.exists_of_trespasses h begun rest, fun broken => ?_⟩⟩
  obtain ⟨u, run, -, timely, shared⟩ := broken
  by_contra trespass
  exact shared (((sound.act trespass).of_peaceful run).exclusive timely)

end

section Duel

open scoped SessionKeeper.Runtime

/-- The lock of a key that two processes contend for. -/
def duel : Contest Bool where
  folder := ⟨"/", ["home"]⟩
  place := ["home"]
  key := "job"
  name := "lock-job.json"
  staleAfter := .fortyFiveSeconds
  holder := fun second => if second then 222 else 111
  named := by decide +kernel
  file := ⟨by decide, by decide⟩
  lasting := by decide
  distinct := by decide
  short := by decide +kernel

def abandoning : Except Failure Marker × Machine :=
  ((⟨duel.folder, duel.staleAfter, 1⟩ : Lock).acquire duel.key).exec Machine.bare

/-- Two processes that have not begun, five minutes after a third one took the lock. -/
def abandoned : Scramble Bool where
  machine := { abandoning.2 with
    now := { Machine.bare.now with tick := ⟨300000000, by decide⟩ } }
  phase := fun _ => .idle

theorem abandoned_starts : duel.Starts abandoned := by
  have taken : ∃ after, abandoning = (_, after) ∧
      ChangedOnly ["home"] (· = duel.name) Machine.bare after ∧ Stands after ["home"] duel.name _ :=
    acquire_absent rfl Machine.ground_bare duel.named duel.file (by decide +kernel)
      (Machine.under_bare _)
  obtain ⟨after, he, only, number, mode, content, hu, -⟩ := taken
  have g : Ground after ⟨"/", ["home"]⟩ ["home"] := Machine.ground_bare.exec he only
  have same : abandoning.2 = after := by rw [he]
  refine ⟨?_, fun mode hd => ?_, fun _ => rfl⟩
  · rw [abandoned, same]
    exact ⟨g.leads, g.stands, g.numbered⟩
  · rw [abandoned, same] at hd
    have none_there := hu.symm.trans hd
    nomatch none_there

/-- Whether no process removes the file of an owner when the two take steps in this order. -/
def isPeaceful : List Bool → Scramble Bool → Bool
  | [], _ => true
  | p :: rest, s =>
    (!(s.phase p).removes duel.path || (s.phase true).file?.isNone && (s.phase false).file?.isNone) &&
      isPeaceful rest (duel.act s p)

theorem peaceful_of_isPeaceful (order : List Bool) (s : Scramble Bool) (h : isPeaceful order s = true) :
    duel.Peaceful s (order.foldl duel.act s) := by
  induction order generalizing s with
  | nil => exact .start
  | cons p rest ih =>
    rw [isPeaceful, Bool.and_eq_true, Bool.or_eq_true, Bool.and_eq_true] at h
    refine .trans (.act .start p ?_) (ih _ h.2)
    rintro ⟨removes, q, number, owns, -⟩
    rcases h.1 with still | ⟨second, first⟩
    · rw [removes] at still
      nomatch still
    · cases q with
      | true =>
        rw [owns.file] at second
        nomatch second
      | false =>
        rw [owns.file] at first
        nomatch first

/-- The second process reads the abandoned marker, and then the first one takes the lock. -/
def headStart : List Bool := List.replicate 4 true ++ List.replicate 11 false

theorem headStart_timely : duel.Timely (headStart.foldl duel.act abandoned) := by
  have now (p : Bool) (since : Moment) :
      ((headStart.foldl duel.act abandoned).phase p).since? = some since →
        since = (headStart.foldl duel.act abandoned).machine.now := by
    have holds : ∀ p, ((headStart.foldl duel.act abandoned).phase p).since? =
        if p then none else some (headStart.foldl duel.act abandoned).machine.now := by
      decide +kernel
    rw [holds]
    cases p with
    | true => exact nofun
    | false => exact fun h => (Option.some.inj h).symm
  intro p since hs
  rw [now p since hs, Int.sub_self]
  exact duel.lasting

theorem duel_trespasses : duel.Trespasses (headStart.foldl duel.act abandoned) true ∧
    Exclusive (headStart.foldl duel.act abandoned) ∧
    ∃ u, duel.Peaceful (duel.act (headStart.foldl duel.act abandoned) true) u ∧ duel.Timely u ∧
      ¬ Exclusive u := by
  have peace : duel.Peaceful abandoned (headStart.foldl duel.act abandoned) :=
    peaceful_of_isPeaceful headStart abandoned (by decide +kernel)
  have trespass : duel.Trespasses (headStart.foldl duel.act abandoned) true :=
    ⟨by decide +kernel, false, 1, ⟨by decide +kernel, headStart_timely false⟩, by decide +kernel⟩
  obtain ⟨exclusive, sharp⟩ := exclusive_and_trespasses_iff abandoned_starts peace
  obtain ⟨u, run, -, timely, shared⟩ := (sharp true).mp trespass
  exact ⟨trespass, exclusive headStart_timely, u, run, timely, shared⟩

/-- The first process reclaims the lock while the second one, which has read the same stale
marker, waits. The second one then removes the fresh marker, and both hold the lock. -/
theorem duel_not_exclusive : duel.Starts abandoned ∧
    ∃ t, duel.Run (fun _ _ => True) abandoned t ∧ duel.Timely t ∧ ¬ Exclusive t := by
  have run (order : List Bool) (s : Scramble Bool) :
      duel.Run (fun _ _ => True) s (order.foldl duel.act s) := by
    induction order generalizing s with
    | nil => exact .start
    | cons p rest ih => exact .trans (.act .start p trivial) (ih _)
  have hold (p : Bool) : (((headStart ++ List.replicate 7 true).foldl duel.act abandoned).phase p).since? =
      some abandoned.machine.now := by
    revert p
    decide +kernel
  have now : ((headStart ++ List.replicate 7 true).foldl duel.act abandoned).machine.now =
      abandoned.machine.now := by decide +kernel
  refine ⟨abandoned_starts, _, run (headStart ++ List.replicate 7 true) abandoned, ?_, fun exclusive => ?_⟩
  · intro p since hp
    rw [hold p] at hp
    rw [now, ← Option.some.inj hp, Int.sub_self]
    exact duel.lasting
  · have same := exclusive true false (by rw [hold]; rfl) (by rw [hold]; rfl)
    nomatch same

end Duel

end Contest

end Lock

end SessionKeeper
