import SessionKeeper.Proofs.Lock.Outcome

/-!
# Who owns a lock

Processes take locks and give them back, one whole call after the other, while time passes. A
ledger keeps what was taken and not given back. A lock that is taken again belongs to the new
holder only; what the old one gives back later is not his any more. So a marker file stands for
exactly one entry of the ledger that nobody has reclaimed, and every call ends accordingly.
-/
namespace SessionKeeper.Lock

/-- A lock that was taken and not given back so far, and whether it was taken again meanwhile. -/
structure Grant where
  marker : Marker
  reclaimed : Bool

/-- The time for which a lock has been taken. -/
def Grant.age (grant : Grant) (now : Moment) : Duration :=
  ⟨now.universalMicros - grant.marker.acquired.universalMicros⟩

def Grant.after (key : Text) (grant : Grant) : Grant :=
  if grant.marker.key = key then { grant with reclaimed := true } else grant

/-- A machine and the locks that were taken on it. -/
structure Ledger where
  machine : Machine
  grants : List Grant

def usedBy (lock : Lock) (holder : Int) : Lock := { lock with holder }

section

variable [Runtime]

namespace Ledger

/-- Runs of whole calls and of time. Universal time never goes back, and a process has a number
that can be printed. -/
inductive Run (lock : Lock) (start : Machine) : Ledger → Prop where
  | start : Run lock start ⟨start, []⟩
  | wait {ledger : Ledger} (run : Run lock start ledger) (now : Moment)
      (universal : now.offset = some 0)
      (later : ledger.machine.now.universalMicros ≤ now.universalMicros) :
      Run lock start ⟨{ ledger.machine with now }, ledger.grants⟩
  | taken {ledger : Ledger} (run : Run lock start ledger) (holder : Int)
      (short : holder.natAbs < Json.digitLimit) (key : Text) {marker : Marker} {after : Machine}
      (returned : ((lock.usedBy holder).acquire key).exec ledger.machine = (.ok marker, after)) :
      Run lock start ⟨after, ⟨marker, false⟩ :: ledger.grants.map (Grant.after key)⟩
  | refused {ledger : Ledger} (run : Run lock start ledger) (holder : Int)
      (short : holder.natAbs < Json.digitLimit) (key : Text) {failure : Failure} {after : Machine}
      (raised : ((lock.usedBy holder).acquire key).exec ledger.machine = (.error failure, after)) :
      Run lock start ⟨after, ledger.grants⟩
  | given {machine after : Machine} {front back : List Grant} {grant : Grant}
      (run : Run lock start ⟨machine, front ++ grant :: back⟩) (holder : Int)
      {outcome : Except Failure Unit}
      (ends : ((lock.usedBy holder).release grant.marker).exec machine = (outcome, after)) :
      Run lock start ⟨after, front ++ back⟩

/-- A start: the folder is there without any marker file, and the clock shows universal time. -/
structure Starts (lock : Lock) (place : Location) (machine : Machine) : Prop where
  ground : Ground machine lock.folder place
  universal : machine.now.offset = some 0
  free : ∀ key name, fileName? key = some name → machine.under place name = none

/-- A grant that can come about: its marker comes back from its file, it is not from the future,
and it is stale if somebody has reclaimed it. -/
structure Admits (lock : Lock) (now : Moment) (grant : Grant) : Prop where
  named : ∃ name, fileName? grant.marker.key = some name ∧ Tree.IsFileName name
  sound : grant.marker.IsSound
  past : 0 ≤ (grant.age now).micros
  stale : grant.reclaimed = true → lock.isFreshAge (grant.age now) = false

/-- How two grants of one key, the newer one first, stand to each other: the older one was
reclaimed, at a time after it was taken and not after the newer one was. -/
def Succeeds (newer older : Grant) : Prop :=
  older.marker.key = newer.marker.key → older.reclaimed = true ∧
    older.marker.acquired.universalMicros < newer.marker.acquired.universalMicros

/-- That two grants of one key, one of which was reclaimed, were not taken at the same time. -/
def Differ (a b : Grant) : Prop :=
  a.marker.key = b.marker.key → a.reclaimed ≠ b.reclaimed →
    a.marker.acquired.universalMicros ≠ b.marker.acquired.universalMicros

/-- What every call preserves: the marker file of a key is that of the one grant of the key that
nobody has reclaimed. -/
structure Sound (lock : Lock) (place : Location) (ledger : Ledger) : Prop where
  ground : Ground ledger.machine lock.folder place
  universal : ledger.machine.now.offset = some 0
  admits : ∀ grant ∈ ledger.grants, Admits lock ledger.machine.now grant
  ordered : ledger.grants.Pairwise Succeeds
  stands : ∀ grant ∈ ledger.grants, grant.reclaimed = false → ∀ name,
    fileName? grant.marker.key = some name → Stands ledger.machine place name grant.marker
  vacant : ∀ key name, fileName? key = some name →
    (∀ grant ∈ ledger.grants, grant.marker.key = key → grant.reclaimed = true) →
      ledger.machine.under place name = none

variable {lock : Lock} {place : Location} {start : Machine} {ledger : Ledger} {grant : Grant}
  {key : Text} {name : String}

theorem Starts.sound (h : Starts lock place start) : Sound lock place ⟨start, []⟩ where
  ground := h.ground
  universal := h.universal
  admits := nofun
  ordered := .nil
  stands := nofun
  vacant key name hk _ := h.free key name hk

theorem Sound.age? (h : Sound lock place ledger) (hg : grant ∈ ledger.grants) :
    grant.marker.age? ledger.machine.now = some (grant.age ledger.machine.now) := by
  have sound := (h.admits grant hg).sound
  rw [Marker.age?, Moment.since?, Moment.comparable, h.universal, sound.acquired]
  rfl

/-- Time may pass. -/
theorem Sound.wait (h : Sound lock place ledger) {now : Moment} (universal : now.offset = some 0)
    (later : ledger.machine.now.universalMicros ≤ now.universalMicros) :
    Sound lock place ⟨{ ledger.machine with now }, ledger.grants⟩ := by
  refine ⟨⟨h.ground.leads, h.ground.stands, h.ground.numbered⟩, universal, fun grant hg => ?_,
    h.ordered, h.stands, h.vacant⟩
  obtain ⟨named, sound, past, stale⟩ := h.admits grant hg
  have older : (grant.age ledger.machine.now).micros ≤ (grant.age now).micros := by
    simp only [Grant.age]
    omega
  refine ⟨named, sound, past.trans older, fun reclaimed => ?_⟩
  rw [← Bool.not_eq_true]
  intro fresh
  have fresh' := isFreshAge_of_le past older fresh
  rw [stale reclaimed] at fresh'
  nomatch fresh'

/-- While a grant is fresh its lock is refused, and the refusal names its holder and its age. -/
theorem Sound.refuses (h : Sound lock place ledger) (hg : grant ∈ ledger.grants)
    (fresh : lock.isFreshAge (grant.age ledger.machine.now) = true) (holder : Int) :
    ((lock.usedBy holder).acquire grant.marker.key).exec ledger.machine =
      (.error (.lockHeld grant.marker.key (some grant.marker.holder) (some (grant.age ledger.machine.now))),
        ledger.machine) := by
  obtain ⟨⟨name, hk, hn⟩, sound, -, stale⟩ := h.admits grant hg
  have current : grant.reclaimed = false := by
    rw [← Bool.not_eq_true]
    intro reclaimed
    rw [stale reclaimed] at fresh
    nomatch fresh
  have hf : (lock.usedBy holder).folder = lock.folder := rfl
  exact acquire_fresh hf h.ground hk hn (h.stands grant hg current name hk) sound (h.age? hg) fresh

theorem Sound.isOpen (h : Sound lock place ledger) (hk : fileName? key = some name)
    (stale : ∀ grant ∈ ledger.grants, grant.marker.key = key →
      lock.isFreshAge (grant.age ledger.machine.now) = false) (holder : Int) :
    (lock.usedBy holder).IsOpen ledger.machine place name := by
  by_cases all : ∀ grant ∈ ledger.grants, grant.marker.key = key → grant.reclaimed = true
  · exact .inl (h.vacant key name hk all)
  · obtain ⟨grant, hg, rfl, current⟩ : ∃ grant ∈ ledger.grants, grant.marker.key = key ∧
        grant.reclaimed = false := by
      simpa only [not_forall, Bool.not_eq_true, exists_prop] using all
    exact .inr ⟨grant.marker, grant.age ledger.machine.now, h.stands grant hg current name hk,
      (h.admits grant hg).sound, h.age? hg, stale grant hg rfl⟩

/-- Taking a lock either is refused and changes no file, or succeeds where all grants of the key
are stale. -/
theorem Sound.acquire_cases (h : Sound lock place ledger) (holder : Int)
    (short : holder.natAbs < Json.digitLimit) (key : Text) :
    (∃ failure after, ((lock.usedBy holder).acquire key).exec ledger.machine =
      (.error failure, after) ∧ after.tree = ledger.machine.tree) ∨
    ∃ name after, fileName? key = some name ∧ Tree.IsFileName name ∧
      (∀ grant ∈ ledger.grants, grant.marker.key = key →
        lock.isFreshAge (grant.age ledger.machine.now) = false) ∧
      ((lock.usedBy holder).acquire key).exec ledger.machine =
        (.ok ⟨key, ledger.machine.now, holder⟩, after) ∧
      ChangedOnly place (· = name) ledger.machine after ∧
      Stands after place name ⟨key, ledger.machine.now, holder⟩ := by
  cases hk : fileName? key with
  | none => exact .inl ⟨_, _, acquire_nameless hk, rfl⟩
  | some name =>
    have hd := ne_up_of_fileName? hk
    have hf : (lock.usedBy holder).folder = lock.folder := rfl
    have hs : (lock.usedBy holder).holder.natAbs < Json.digitLimit := short
    cases long : Tree.isTooLong name with
    | true => exact .inl ⟨_, acquire_long hf h.ground hk hd long⟩
    | false =>
      have hn : Tree.IsFileName name := ⟨hd, long⟩
      by_cases stale : ∀ grant ∈ ledger.grants, grant.marker.key = key →
          lock.isFreshAge (grant.age ledger.machine.now) = false
      · obtain ⟨after, he, only, stands⟩ :=
          acquire_open hf h.ground hk hn hs (h.isOpen hk stale holder)
        exact .inr ⟨name, after, rfl, hn, stale, he, only, stands⟩
      · obtain ⟨grant, hg, rfl, fresh⟩ : ∃ grant ∈ ledger.grants, grant.marker.key = key ∧
            lock.isFreshAge (grant.age ledger.machine.now) = true := by
          simpa only [not_forall, Bool.not_eq_false, exists_prop] using stale
        exact .inl ⟨_, _, h.refuses hg fresh holder, rfl⟩

/-- A call that changes no file changes nothing else either. -/
theorem Sound.of_tree (h : Sound lock place ledger) {after : Machine}
    (fixed : ledger.machine.SameCircumstances after) (tree : after.tree = ledger.machine.tree) :
    Sound lock place ⟨after, ledger.grants⟩ := by
  have only : ChangedOnly place (fun _ => False) ledger.machine after := .of_tree tree
  have under (name : String) : after.under place name = ledger.machine.under place name :=
    only.under not_false
  refine ⟨h.ground.kept only fixed (tree ▸ h.ground.numbered), fixed.now ▸ h.universal,
    fun grant hg => fixed.now ▸ h.admits grant hg, h.ordered,
    fun grant hg current name hk => (h.stands grant hg current name hk).of_under (under name),
    fun key name hk all => (under name).trans (h.vacant key name hk all)⟩

omit [Runtime] in
@[simp] theorem marker_after (key : Text) (grant : Grant) : (grant.after key).marker = grant.marker := by
  rw [Grant.after]
  split_ifs <;> rfl

omit [Runtime] in
@[simp] theorem reclaimed_after (key : Text) (grant : Grant) :
    (grant.after key).reclaimed = true ↔ grant.marker.key = key ∨ grant.reclaimed = true := by
  rw [Grant.after]
  split_ifs with h <;> simp [h]

omit [Runtime] in
theorem current_after (key : Text) (grant : Grant) :
    (grant.after key).reclaimed = false ↔ grant.marker.key ≠ key ∧ grant.reclaimed = false := by
  rw [← Bool.not_eq_true, reclaimed_after, not_or, Bool.not_eq_true]

omit [Runtime] in
@[simp] theorem age_after (key : Text) (grant : Grant) (now : Moment) :
    (grant.after key).age now = grant.age now := by
  rw [Grant.age, marker_after, Grant.age]

omit [Runtime] in
theorem Admits.after {now : Moment} (h : Admits lock now grant)
    (stale : grant.marker.key = key → lock.isFreshAge (grant.age now) = false) :
    Admits lock now (grant.after key) where
  named := by rw [marker_after]; exact h.named
  sound := by rw [marker_after]; exact h.sound
  past := by rw [age_after]; exact h.past
  stale reclaimed := by
    rw [age_after]
    exact ((reclaimed_after key grant).mp reclaimed).elim stale h.stale

omit [Runtime] in
theorem Succeeds.after {newer older : Grant} (h : Succeeds newer older) (key : Text) :
    Succeeds (newer.after key) (older.after key) := by
  intro same
  rw [marker_after, marker_after] at same ⊢
  obtain ⟨reclaimed, earlier⟩ := h same
  exact ⟨(reclaimed_after key older).mpr (.inr reclaimed), earlier⟩

omit [Runtime] in
/-- A grant that is stale was taken some time ago. -/
theorem Admits.acquired_lt {now : Moment} (h : Admits lock now grant)
    (positive : 0 < lock.staleAfter.micros) (stale : lock.isFreshAge (grant.age now) = false) :
    grant.marker.acquired.universalMicros < now.universalMicros := by
  have past := h.past
  by_contra hlt
  have zero : grant.age now = ⟨0⟩ := by
    simp only [Grant.age] at past ⊢
    congr 1
    omega
  rw [zero, isFreshAge_zero positive] at stale
  nomatch stale

omit [Runtime] in
theorem Admits.succeeds {now : Moment} (h : Admits lock now grant)
    (positive : 0 < lock.staleAfter.micros)
    (stale : grant.marker.key = key → lock.isFreshAge (grant.age now) = false) (holder : Int) :
    Succeeds ⟨⟨key, now, holder⟩, false⟩ (grant.after key) := by
  intro same
  rw [marker_after] at same ⊢
  exact ⟨(reclaimed_after key grant).mpr (.inl same), h.acquired_lt positive (stale same)⟩

theorem Sound.taken (h : Sound lock place ledger) (positive : 0 < lock.staleAfter.micros)
    {holder : Int} (short : holder.natAbs < Json.digitLimit) {marker : Marker} {after : Machine}
    (returned : ((lock.usedBy holder).acquire key).exec ledger.machine = (.ok marker, after)) :
    Sound lock place ⟨after, ⟨marker, false⟩ :: ledger.grants.map (Grant.after key)⟩ := by
  have fixed : ledger.machine.SameCircumstances after := .of_exec_eq returned
  rcases h.acquire_cases holder short key with ⟨failure, other, raised, -⟩ |
      ⟨name, other, hk, hn, stale, he, only, stands⟩
  · rw [returned] at raised
    nomatch raised
  · rw [returned] at he
    cases he
    -- The marker files of other keys have other names.
    have apart {other : Text} {name' : String} (ho : fileName? other = some name')
        (hne : other ≠ key) : after.under place name' = ledger.machine.under place name' :=
      only.under fun hname => hne (fileName?_injective ho (hname ▸ hk))
    have own : Admits lock ledger.machine.now ⟨⟨key, ledger.machine.now, holder⟩, false⟩ :=
      ⟨⟨name, hk, hn⟩, ⟨rejoin_of_fileName? hk, h.universal, short⟩, (Int.sub_self _).ge, nofun⟩
    refine ⟨h.ground.exec returned only, fixed.now ▸ h.universal, ?_, ?_,
      fun grant hg current name' hk' => ?_, fun other name' ho all => ?_⟩
    · show ∀ grant ∈ _, Admits lock after.now grant
      rw [fixed.now]
      exact List.forall_mem_cons.mpr ⟨own, List.forall_mem_map.mpr fun old ho =>
        (h.admits old ho).after (stale old ho)⟩
    · exact List.pairwise_cons.mpr ⟨List.forall_mem_map.mpr fun old ho =>
        (h.admits old ho).succeeds positive (stale old ho) holder,
        List.pairwise_map.mpr (h.ordered.imp fun succeeds => succeeds.after key)⟩
    · rcases List.mem_cons.mp hg with rfl | hg
      · rw [hk] at hk'
        cases hk'
        exact stands
      · obtain ⟨old, ho, rfl⟩ := List.mem_map.mp hg
        rw [marker_after] at hk' ⊢
        obtain ⟨hne, current⟩ := (current_after key old).mp current
        exact (h.stands old ho current name' hk').of_under (apart hk' hne)
    · have hne : other ≠ key := by
        rintro rfl
        have reclaimed := all _ List.mem_cons_self rfl
        nomatch reclaimed
      refine (apart ho hne).trans (h.vacant other name' ho fun old hold hkey => ?_)
      have reclaimed := all (old.after key) (by simp [List.mem_map_of_mem hold]) (by rwa [marker_after])
      exact ((reclaimed_after key old).mp reclaimed).resolve_left fun hk' => hne (hkey.symm.trans hk')

theorem Sound.refused (h : Sound lock place ledger) {holder : Int}
    (short : holder.natAbs < Json.digitLimit) {failure : Failure} {after : Machine}
    (raised : ((lock.usedBy holder).acquire key).exec ledger.machine = (.error failure, after)) :
    Sound lock place ⟨after, ledger.grants⟩ := by
  have fixed : ledger.machine.SameCircumstances after := .of_exec_eq raised
  rcases h.acquire_cases holder short key with ⟨other, same, he, tree⟩ | ⟨name, other, -, -, -, he, -⟩
  · rw [raised] at he
    cases he
    exact h.of_tree fixed tree
  · rw [raised] at he
    nomatch he

theorem Sound.acquired_ne (h : Sound lock place ledger) {other : Grant} (hg : grant ∈ ledger.grants)
    (ho : other ∈ ledger.grants) (same : other.marker.key = grant.marker.key)
    (reclaimed : grant.reclaimed = true) (current : other.reclaimed = false) :
    other.marker.acquired.universalMicros ≠ grant.marker.acquired.universalMicros := by
  have differ : ledger.grants.Pairwise Differ :=
    h.ordered.imp fun succeeds hkey _ => (succeeds hkey.symm).2.ne'
  have symm : Std.Symm Differ := ⟨fun a b hab hkey hr => (hab hkey.symm hr.symm).symm⟩
  have hne : other ≠ grant := by
    rintro rfl
    rw [reclaimed] at current
    nomatch current
  refine differ.forall ho hg hne same ?_
  rw [reclaimed, current]
  decide

/-- Giving back a lock that somebody else has reclaimed changes no file. -/
theorem Sound.release_reclaimed (h : Sound lock place ledger) (hg : grant ∈ ledger.grants)
    (reclaimed : grant.reclaimed = true) (holder : Int) :
    ∃ after, ((lock.usedBy holder).release grant.marker).exec ledger.machine = (.ok (), after) ∧
      after.tree = ledger.machine.tree := by
  obtain ⟨⟨name, hk, hn⟩, -, -, -⟩ := h.admits grant hg
  have hf : (lock.usedBy holder).folder = lock.folder := rfl
  by_cases all : ∀ other ∈ ledger.grants, other.marker.key = grant.marker.key → other.reclaimed = true
  · exact release_absent hf h.ground hk hn (h.vacant _ name hk all)
  · obtain ⟨other, ho, same, current⟩ : ∃ other ∈ ledger.grants,
        other.marker.key = grant.marker.key ∧ other.reclaimed = false := by
      simpa only [not_forall, Bool.not_eq_true, exists_prop] using all
    have differ : other.marker.sameHolding grant.marker = false := by
      simp [Marker.sameHolding, Moment.sameTime, h.acquired_ne hg ho same reclaimed current]
    exact Lock.release_reclaimed hf h.ground hk hn (h.stands other ho current name (same ▸ hk))
      (h.admits other ho).sound differ

/-- Giving back a lock that nobody has reclaimed removes its marker file. -/
theorem Sound.release_current (h : Sound lock place ledger) (hg : grant ∈ ledger.grants)
    (current : grant.reclaimed = false) (holder : Int) :
    ∃ name after, fileName? grant.marker.key = some name ∧
      ((lock.usedBy holder).release grant.marker).exec ledger.machine = (.ok (), after) ∧
      ChangedOnly place (· = name) ledger.machine after ∧ after.under place name = none := by
  obtain ⟨⟨name, hk, hn⟩, sound, -, -⟩ := h.admits grant hg
  have hf : (lock.usedBy holder).folder = lock.folder := rfl
  obtain ⟨after, he, only, free⟩ :=
    release_own hf h.ground hk hn (h.stands grant hg current name hk) sound
  exact ⟨name, after, hk, he, only, free⟩

section Given

variable {machine after : Machine} {front back : List Grant} {holder : Int}
  {outcome : Except Failure Unit}

omit [Runtime] in
theorem mem_of_mem_rest {other : Grant} (ho : other ∈ front ++ back) :
    other ∈ front ++ grant :: back := by
  rw [List.mem_append] at ho ⊢
  exact ho.imp_right (List.mem_cons_of_mem grant)

omit [Runtime] in
theorem forall_mem_of_rest {p : Grant → Prop} (all : ∀ other ∈ front ++ back, p other)
    (own : p grant) : ∀ other ∈ front ++ grant :: back, p other := by
  rw [List.forall_mem_append] at all ⊢
  exact ⟨all.1, List.forall_mem_cons.mpr ⟨own, all.2⟩⟩

theorem Sound.ordered_rest (h : Sound lock place ⟨machine, front ++ grant :: back⟩) :
    (front ++ back).Pairwise Succeeds :=
  h.ordered.sublist ((List.Sublist.refl front).append (List.sublist_cons_self grant back))

theorem Sound.key_ne_of_current (h : Sound lock place ⟨machine, front ++ grant :: back⟩)
    (current : grant.reclaimed = false) {other : Grant} (ho : other ∈ front ++ back)
    (kept : other.reclaimed = false) : other.marker.key ≠ grant.marker.key := by
  obtain ⟨-, older, newer⟩ := List.pairwise_append.mp h.ordered
  intro hkey
  rcases List.mem_append.mp ho with ho | ho
  · have reclaimed := (newer other ho grant List.mem_cons_self hkey.symm).1
    rw [current] at reclaimed
    nomatch reclaimed
  · have reclaimed := ((List.pairwise_cons.mp older).1 other ho hkey).1
    rw [kept] at reclaimed
    nomatch reclaimed

theorem Sound.given_reclaimed (h : Sound lock place ⟨machine, front ++ grant :: back⟩)
    (reclaimed : grant.reclaimed = true)
    (ends : ((lock.usedBy holder).release grant.marker).exec machine = (outcome, after)) :
    Sound lock place ⟨after, front ++ back⟩ := by
  obtain ⟨other, he, tree⟩ := h.release_reclaimed (by simp) reclaimed holder
  rw [show _ = (outcome, after) from ends] at he
  cases he
  obtain ⟨ground, universal, admits, -, stands, vacant⟩ := h.of_tree (.of_exec_eq ends) tree
  exact ⟨ground, universal, fun other ho => admits other (mem_of_mem_rest ho), h.ordered_rest,
    fun other ho => stands other (mem_of_mem_rest ho),
    fun key name hk all => vacant key name hk (forall_mem_of_rest all fun _ => reclaimed)⟩

theorem Sound.given_current (h : Sound lock place ⟨machine, front ++ grant :: back⟩)
    (current : grant.reclaimed = false)
    (ends : ((lock.usedBy holder).release grant.marker).exec machine = (outcome, after)) :
    Sound lock place ⟨after, front ++ back⟩ := by
  have fixed : machine.SameCircumstances after := .of_exec_eq ends
  obtain ⟨name, other, hk, he, only, free⟩ := h.release_current (by simp) current holder
  rw [show _ = (outcome, after) from ends] at he
  cases he
  have under {key : Text} {name' : String} (hk' : fileName? key = some name')
      (hne : key ≠ grant.marker.key) : after.under place name' = machine.under place name' :=
    only.under fun hname => hne (fileName?_injective hk' (hname ▸ hk))
  refine ⟨h.ground.exec ends only, fixed.now ▸ h.universal,
    fun other ho => fixed.now ▸ h.admits other (mem_of_mem_rest ho), h.ordered_rest,
    fun other ho kept name' hk' => ?_, fun key name' hk' all => ?_⟩
  · exact (h.stands other (mem_of_mem_rest ho) kept name' hk').of_under
      (under hk' (h.key_ne_of_current current ho kept))
  · by_cases hkey : key = grant.marker.key
    · subst hkey
      rw [hk] at hk'
      cases hk'
      exact free
    · exact (under hk' hkey).trans (h.vacant key name' hk'
        (forall_mem_of_rest all fun own => absurd own.symm hkey))

theorem Sound.given (h : Sound lock place ⟨machine, front ++ grant :: back⟩)
    (ends : ((lock.usedBy holder).release grant.marker).exec machine = (outcome, after)) :
    Sound lock place ⟨after, front ++ back⟩ := by
  cases reclaimed : grant.reclaimed with
  | true => exact h.given_reclaimed reclaimed ends
  | false => exact h.given_current reclaimed ends

end Given

/-- Every run keeps the ledger and the marker files in step. -/
theorem Starts.sound_of_run (starts : Starts lock place start) (positive : 0 < lock.staleAfter.micros)
    (run : Run lock start ledger) : Sound lock place ledger := by
  induction run with
  | start => exact starts.sound
  | wait run now universal later ih => exact ih.wait universal later
  | taken run holder short key returned ih => exact ih.taken positive short returned
  | refused run holder short key raised ih => exact ih.refused short raised
  | given run holder ends ih => exact ih.given ends

theorem Sound.readMarker_current (h : Sound lock place ledger) (hg : grant ∈ ledger.grants)
    (current : grant.reclaimed = false) (holder : Int) :
    ((lock.usedBy holder).readMarker grant.marker.key).exec ledger.machine =
      (.ok (some grant.marker), ledger.machine) := by
  obtain ⟨⟨name, hk, hn⟩, sound, -, -⟩ := h.admits grant hg
  have hp : (lock.usedBy holder).markerPath grant.marker.key = pure (lock.folder.child name) :=
    markerPath_eq rfl hk
  rw [readMarker, hp, pure_bind]
  exact readMarkerAt_stands h.ground hn (h.stands grant hg current name hk) sound

/-- A lock whose marker file is missing or has become stale is taken, now or later. -/
theorem Sound.acquire_later (h : Sound lock place ledger) (hk : fileName? key = some name)
    (hn : Tree.isTooLong name = false)
    (stale : ∀ marker, (lock.readMarker key).exec ledger.machine = (.ok (some marker), ledger.machine) →
      ∃ age, marker.age? ledger.machine.now = some age ∧ lock.isFreshAge age = false)
    {now : Moment} (universal : now.offset = some 0)
    (later : ledger.machine.now.universalMicros ≤ now.universalMicros) {holder : Int}
    (short : holder.natAbs < Json.digitLimit) :
    ∃ after, ((lock.usedBy holder).acquire key).exec { ledger.machine with now } =
      (.ok ⟨key, now, holder⟩, after) := by
  have old (grant : Grant) (hg : grant ∈ ledger.grants) (hkey : grant.marker.key = key) :
      lock.isFreshAge (grant.age ledger.machine.now) = false := by
    cases reclaimed : grant.reclaimed with
    | true => exact (h.admits grant hg).stale reclaimed
    | false =>
      obtain ⟨age, ha, past⟩ := stale grant.marker (hkey ▸ h.readMarker_current hg reclaimed lock.holder)
      rw [h.age? hg] at ha
      cases ha
      exact past
  have waited := h.wait universal later
  have older (grant : Grant) (hg : grant ∈ ledger.grants) (hkey : grant.marker.key = key) :
      lock.isFreshAge (grant.age now) = false := by
    rw [← Bool.not_eq_true]
    intro fresh
    have past := (h.admits grant hg).past
    have fresh' := isFreshAge_of_le past (Int.sub_le_sub_right later _) fresh
    rw [old grant hg hkey] at fresh'
    nomatch fresh'
  have hf : (lock.usedBy holder).folder = lock.folder := rfl
  have hs : (lock.usedBy holder).holder.natAbs < Json.digitLimit := short
  obtain ⟨after, he, -⟩ := acquire_open hf waited.ground hk ⟨ne_up_of_fileName? hk, hn⟩ hs
    (waited.isOpen hk older holder)
  exact ⟨after, he⟩

/-- In every run of whole calls, locks belong to who took them last. While a lock that was not given
back is fresh every attempt to take it is refused, and the refusal names its holder and its age and
changes nothing. Until it is given back or taken again its marker is read. Once no marker file is
there, or its marker has become stale, the lock is taken, if its file name is not too long. Giving a
lock back that somebody else has taken changes no file. -/
theorem ownership_of_run (starts : Starts lock place start) (positive : 0 < lock.staleAfter.micros)
    (run : Run lock start ledger) :
    (∀ grant ∈ ledger.grants, lock.isFreshAge (grant.age ledger.machine.now) = true → ∀ holder,
      ((lock.usedBy holder).acquire grant.marker.key).exec ledger.machine =
        (.error (.lockHeld grant.marker.key (some grant.marker.holder)
          (some (grant.age ledger.machine.now))), ledger.machine)) ∧
    (∀ grant ∈ ledger.grants, grant.reclaimed = false → ∀ holder,
      ((lock.usedBy holder).readMarker grant.marker.key).exec ledger.machine =
        (.ok (some grant.marker), ledger.machine)) ∧
    (∀ key name, fileName? key = some name → Tree.isTooLong name = false →
      (∀ marker,
        (lock.readMarker key).exec ledger.machine = (.ok (some marker), ledger.machine) →
          ∃ age, marker.age? ledger.machine.now = some age ∧ lock.isFreshAge age = false) →
      ∀ now : Moment, now.offset = some 0 →
        ledger.machine.now.universalMicros ≤ now.universalMicros →
      ∀ holder : Int, holder.natAbs < Json.digitLimit →
        ∃ after, ((lock.usedBy holder).acquire key).exec { ledger.machine with now } =
          (.ok ⟨key, now, holder⟩, after)) ∧
    (∀ grant ∈ ledger.grants, grant.reclaimed = true → ∀ holder,
      ∃ after, ((lock.usedBy holder).release grant.marker).exec ledger.machine = (.ok (), after) ∧
        after.tree = ledger.machine.tree) := by
  have sound := starts.sound_of_run positive run
  exact ⟨fun grant hg fresh holder => sound.refuses hg fresh holder,
    fun grant hg current holder => sound.readMarker_current hg current holder,
    fun key name hk hn stale now universal later holder short =>
      sound.acquire_later hk hn stale universal later short,
    fun grant hg reclaimed holder => sound.release_reclaimed hg reclaimed holder⟩

end Ledger

end

namespace Ledger

open scoped SessionKeeper.Runtime

/-- The locks of a folder with nothing in it. -/
def bareLock : Lock := ⟨⟨"/", ["home"]⟩, .fortyFiveSeconds, 0⟩

theorem bareLock_starts : Starts bareLock ["home"] Machine.bare :=
  ⟨Machine.ground_bare, rfl, fun _ name _ => Machine.under_bare name⟩

/-- Three quarters of a minute later. -/
def overrun : Moment := { Machine.bare.now with tick := ⟨45000000, by decide⟩ }

/-- The second process takes the lock that the first one has held too long, and the first one cannot
give it back any more. -/
theorem bareLock_reclaimed : ∃ machine, Run bareLock Machine.bare ⟨machine,
      [⟨⟨"job", overrun, 2⟩, false⟩, ⟨⟨"job", Machine.bare.now, 1⟩, true⟩]⟩ ∧
    ((bareLock.usedBy 1).readMarker "job").exec machine =
      (.ok (some ⟨"job", overrun, 2⟩), machine) ∧
    ((bareLock.usedBy 3).acquire "job").exec machine =
      (.error (.lockHeld "job" (some 2) (some ⟨0⟩)), machine) ∧
    ∃ after, ((bareLock.usedBy 1).release ⟨"job", Machine.bare.now, 1⟩).exec machine = (.ok (), after) ∧
      after.tree = machine.tree := by
  have positive : 0 < bareLock.staleAfter.micros := by decide
  have named : fileName? "job" = some "lock-job.json" := by decide +kernel
  have short (holder : Int) (h : holder.natAbs < 10) : holder.natAbs < Json.digitLimit :=
    h.trans (by decide +kernel)
  have nothing : (bareLock.readMarker "job").exec Machine.bare = (.ok none, Machine.bare) := by
    have hp : bareLock.markerPath "job" = pure (bareLock.folder.child "lock-job.json") :=
      markerPath_eq rfl named
    rw [readMarker, hp, pure_bind]
    exact readMarkerAt_absent Machine.ground_bare ⟨by decide, by decide⟩ (Machine.under_bare _)
  obtain ⟨-, -, free, -⟩ := ownership_of_run bareLock_starts positive .start
  obtain ⟨first, he⟩ := free "job" _ named (by decide)
    (fun marker hm => absurd (nothing.symm.trans hm) (by simp)) Machine.bare.now rfl le_rfl 1
    (short 1 (by decide))
  have now : first.now = Machine.bare.now := (Machine.SameCircumstances.of_exec_eq he).now
  have held : Run bareLock Machine.bare
      ⟨{ first with now := overrun }, [⟨⟨"job", Machine.bare.now, 1⟩, false⟩]⟩ :=
    .wait (.taken .start 1 (short 1 (by decide)) "job" he) overrun rfl (by rw [now]; decide)
  obtain ⟨-, read, stale, -⟩ := ownership_of_run bareLock_starts positive held
  have found := read _ List.mem_cons_self rfl 0
  have late : ∃ age, Marker.age? ⟨"job", Machine.bare.now, 1⟩ overrun = some age ∧
      bareLock.isFreshAge age = false := ⟨⟨45000000⟩, by decide, by decide +kernel⟩
  obtain ⟨second, he'⟩ : ∃ second, ((bareLock.usedBy 2).acquire "job").exec
      { first with now := overrun } = (.ok ⟨"job", overrun, 2⟩, second) :=
    stale "job" _ named (by decide) (fun marker hm => by cases found.symm.trans hm; exact late) overrun
      rfl le_rfl 2 (short 2 (by decide))
  have lost : Run bareLock Machine.bare ⟨second,
      [⟨⟨"job", overrun, 2⟩, false⟩, ⟨⟨"job", Machine.bare.now, 1⟩, true⟩]⟩ :=
    .taken held 2 (short 2 (by decide)) "job" he'
  have still : second.now = overrun := (Machine.SameCircumstances.of_exec_eq he').now
  obtain ⟨refused, read, -, released⟩ := ownership_of_run bareLock_starts positive lost
  have age : Grant.age ⟨⟨"job", overrun, 2⟩, false⟩ second.now = ⟨0⟩ := by
    rw [still]
    decide
  have refusal := refused ⟨⟨"job", overrun, 2⟩, false⟩ List.mem_cons_self
  rw [show Grant.age ⟨⟨"job", overrun, 2⟩, false⟩ _ = ⟨0⟩ from age] at refusal
  exact ⟨second, lost, read _ List.mem_cons_self rfl 1, refusal (isFreshAge_zero positive) 3,
    released ⟨⟨"job", Machine.bare.now, 1⟩, true⟩ (by simp) rfl 1⟩

/-- A key that is encoded as it stands. -/
def longKey : Text := List.replicate 300 (.char 'k')

/-- A lock with a file name of more than 255 octets cannot be taken though no marker file is there. -/
theorem bareLock_long : ∃ name after, fileName? longKey = some name ∧
    Machine.bare.under ["home"] name = none ∧
    ((bareLock.usedBy 1).acquire longKey).exec Machine.bare =
      (.error (.file .nameTooLong), after) := by
  have named : ∃ name, fileName? longKey = some name ∧ Tree.isTooLong name = true := by
    refine (Option.any_eq_true _ _).mp ?_
    decide +kernel
  obtain ⟨name, hk, long⟩ := named
  have hf : (bareLock.usedBy 1).folder = ⟨"/", ["home"]⟩ := rfl
  obtain ⟨after, he, -⟩ := acquire_long hf Machine.ground_bare hk (ne_up_of_fileName? hk) long
  exact ⟨name, after, hk, Machine.under_bare name, he⟩

end Ledger

end SessionKeeper.Lock
