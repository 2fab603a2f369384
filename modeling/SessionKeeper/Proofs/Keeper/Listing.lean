import SessionKeeper.Proofs.Keeper.Stored

/-!
# Listing workers from any records

Each record is read on its own, and one that cannot be read is passed over with a warning. Those
that can be read are sorted by their times of registration. Two times are in order only when both
have an offset or neither has one, and so a single pair that is not alike in this leaves no listing
at all. Looking a worker up stops where the listing does.
-/
namespace SessionKeeper

namespace Worker

/-- The workers that can be read from records, in order. -/
def readable (now : Moment) (records : Assoc Text Json) : List Worker :=
  (records.map Prod.snd).filterMap fun record => (read now record).toOption

/-- How many of the records cannot be read. -/
def malformed (now : Moment) (records : Assoc Text Json) : Nat :=
  (records.map Prod.snd).countP fun record => !(read now record).isOk

end Worker

namespace Keeper

/-- That a listing has the same workers in the order of registration, and those of the same time in
the order they had. -/
structure IsSorted (workers listing : List Worker) : Prop where
  all : listing.Perm workers
  ordered : listing.Pairwise fun a b => a.created.universalMicros ≤ b.created.universalMicros
  stable : ∀ a b, [a, b].Sublist workers →
    a.created.universalMicros = b.created.universalMicros → [a, b].Sublist listing

/-- How putting workers in order ends: in one way for times that are alike in having an offset or
not, and in the other for the rest. -/
inductive Orders (workers : List Worker) : Except Failure (List Worker) → Prop where
  | sorted {listing : List Worker}
      (alike : ∀ a ∈ workers, ∀ b ∈ workers, a.created.offset.isSome = b.created.offset.isSome)
      (sorted : IsSorted workers listing) : Orders workers (.ok listing)
  | uneven {a b : Worker} (ha : a ∈ workers) (hb : b ∈ workers) (bare : a.created.offset = none)
      (offset : b.created.offset ≠ none) : Orders workers (.error (.incomparable .compare))

/-- The worker that is sought in a listing: the first one with this id, whatever others are named;
else the first one with this name. -/
inductive Chooses (listing : List Worker) (sought : Text) : Option Worker → Prop where
  | byId {earlier later : List Worker} {worker : Worker}
      (listed : listing = earlier ++ worker :: later) (own : worker.id = sought)
      (first : ∀ other ∈ earlier, other.id ≠ sought) : Chooses listing sought (some worker)
  | byName {earlier later : List Worker} {worker : Worker}
      (absent : ∀ other ∈ listing, other.id ≠ sought)
      (listed : listing = earlier ++ worker :: later) (named : worker.name = sought)
      (first : ∀ other ∈ earlier, other.name ≠ sought) : Chooses listing sought (some worker)
  | nothing (absent : ∀ other ∈ listing, other.id ≠ sought)
      (unnamed : ∀ other ∈ listing, other.name ≠ sought) : Chooses listing sought none

/-- How looking a worker up ends and what it leaves, told by how the listing ended and what that
left. Apart from the listing only the backend can stop it. -/
inductive Seeks (keeper : Keeper) (sought : Text) (listed : Machine) :
    Except Failure (List Worker) → Except Failure (Option Worker) × Machine → Prop where
  | stopped {failure : Failure} :
      Seeks keeper sought listed (.error failure) (.error failure, listed)
  | missed {listing : List Worker} (chosen : Chooses listing sought none) :
      Seeks keeper sought listed (.ok listing) (.ok none, listed)
  | found {listing : List Worker} {worker : Worker} {secret : Option Text} {after : Machine}
      (chosen : Chooses listing sought (some worker))
      (told : (keeper.secrets.get? keeper.workerService worker.id).exec listed =
        (.ok secret, after)) :
      Seeks keeper sought listed (.ok listing) (.ok (some { worker with secret }), after)
  | unanswered {listing : List Worker} {worker : Worker} {failure : Failure} {after : Machine}
      (chosen : Chooses listing sought (some worker))
      (failed : (keeper.secrets.get? keeper.workerService worker.id).exec listed =
        (.error failure, after)) :
      Seeks keeper sought listed (.ok listing) (.error failure, after)

variable {keeper : Keeper} {machine between : Machine} {records : Assoc Text Json}

/-- Times that can all be compared with the first one can be compared with each other. -/
theorem allComparable_iff (times : List Moment) : allComparable times = true ↔
    ∀ a ∈ times, ∀ b ∈ times, a.offset.isSome = b.offset.isSome := by
  cases times with
  | nil => exact ⟨fun _ _ ha => absurd ha List.not_mem_nil, fun _ => rfl⟩
  | cons first rest =>
    have whole : allComparable (first :: rest) = true ↔
        ∀ m ∈ first :: rest, m.offset.isSome = first.offset.isSome := by
      rw [allComparable, List.all_eq_true, List.forall_mem_cons]
      exact ⟨fun h => ⟨rfl, fun m hm => eq_of_beq (h m hm)⟩,
        fun h m hm => beq_iff_eq.mpr (h.2 m hm)⟩
    rw [whole]
    exact ⟨fun h a ha b hb => (h a ha).trans (h b hb).symm,
      fun h m hm => h m hm first List.mem_cons_self⟩

theorem registeredBefore_trans (a b c : Worker) (hab : registeredBefore a b = true)
    (hbc : registeredBefore b c = true) : registeredBefore a c = true :=
  decide_eq_true ((of_decide_eq_true hab).trans (of_decide_eq_true hbc))

theorem registeredBefore_total (a b : Worker) :
    (registeredBefore a b || registeredBefore b a) = true := by
  rw [Bool.or_eq_true]
  exact (Int.le_total a.created.universalMicros b.created.universalMicros).imp
    decide_eq_true decide_eq_true

theorem isSorted_mergeSort (workers : List Worker) :
    IsSorted workers (workers.mergeSort registeredBefore) where
  all := List.mergeSort_perm _ _
  ordered := (List.pairwise_mergeSort registeredBefore_trans registeredBefore_total _).imp
    of_decide_eq_true
  stable _ _ both same := List.pair_sublist_mergeSort registeredBefore_trans registeredBefore_total
    (decide_eq_true same.le) both

/-- Any workers are put in order, or are not, on every machine alike. -/
theorem oldestFirst_orders (workers : List Worker) : ∃ outcome, Orders workers outcome ∧
    ∀ machine, (oldestFirst workers).exec machine = (outcome, machine) := by
  by_cases alike : allComparable (workers.map Worker.created) = true
  · rw [oldestFirst, if_pos alike]
    rw [allComparable_iff] at alike
    simp only [List.forall_mem_map] at alike
    exact ⟨_, .sorted alike (isSorted_mergeSort workers), fun _ => rfl⟩
  · rw [oldestFirst, if_neg alike]
    rw [allComparable_iff] at alike
    simp only [List.forall_mem_map, not_forall] at alike
    obtain ⟨a, ha, b, hb, differ⟩ := alike
    refine ⟨_, ?_, fun _ => rfl⟩
    -- One of the two has no offset, and then the other one has.
    cases ma : a.created.offset with
    | none => exact .uneven ha hb ma fun mb => differ (by rw [ma, mb])
    | some offset =>
      cases mb : b.created.offset with
      | none => exact .uneven hb ha mb (by rw [ma]; nofun)
      | some => exact absurd (by rw [ma, mb]; rfl) differ

variable [Runtime]

/-- How any records are listed is told by their times alone. -/
theorem listWorkers_orders (now : Moment) (records : Assoc Text Json) :
    ∃ outcome, Orders (Worker.readable now records) outcome ∧
      ∀ (keeper : Keeper) (machine between : Machine), machine.now = now →
        keeper.workers.entries.exec machine = (.ok records, between) →
          keeper.listWorkers.exec machine = (outcome,
            between.warned "Skipping malformed worker record" (Worker.malformed now records)) := by
  obtain ⟨outcome, orders, ends⟩ := oldestFirst_orders (Worker.readable now records)
  refine ⟨outcome, orders, ?_⟩
  rintro keeper machine between rfl found
  have read := readAll_warns (Worker.read machine.now) "Skipping malformed worker record"
    (records.map Prod.snd) between
  rw [listWorkers, Action.exec_bind_ok (Action.exec_now machine), Action.exec_bind_ok found,
    Action.exec_bind_ok read]
  exact ends _

theorem listWorkers_stops (keeper : Keeper) {machine between : Machine} {failure : Failure}
    (stopped : keeper.workers.entries.exec machine = (.error failure, between)) :
    keeper.listWorkers.exec machine = (.error failure, between) := by
  rw [listWorkers, Action.exec_bind_ok (Action.exec_now machine), Action.exec_bind_error stopped]

omit [Runtime] in
theorem chooses_find? (listing : List Worker) (sought : Text) : Chooses listing sought
    ((listing.find? fun worker => worker.id = sought).or
      (listing.find? fun worker => worker.name = sought)) := by
  cases hid : listing.find? fun worker => worker.id = sought with
  | some worker =>
    obtain ⟨own, earlier, later, listed, first⟩ := List.find?_eq_some_iff_append.mp hid
    exact .byId listed (of_decide_eq_true own) fun other ho => by simpa using first other ho
  | none =>
    have absent (other : Worker) (ho : other ∈ listing) : other.id ≠ sought := by
      simpa using List.find?_eq_none.mp hid other ho
    rw [Option.none_or]
    cases hname : listing.find? fun worker => worker.name = sought with
    | some worker =>
      obtain ⟨named, earlier, later, listed, first⟩ := List.find?_eq_some_iff_append.mp hname
      exact .byName absent listed (of_decide_eq_true named) fun other ho => by
        simpa using first other ho
    | none =>
      exact .nothing absent fun other ho => by simpa using List.find?_eq_none.mp hname other ho

theorem getWorker_seeks {outcome : Except Failure (List Worker)}
    (listed : keeper.listWorkers.exec machine = (outcome, between)) (sought : Text) :
    Seeks keeper sought between outcome ((keeper.getWorker sought).exec machine) := by
  rw [getWorker]
  cases outcome with
  | error failure =>
    rw [Action.exec_bind_error listed]
    exact .stopped
  | ok listing =>
    have chosen := chooses_find? listing sought
    rw [Action.exec_bind_ok listed]
    dsimp only
    revert chosen
    cases (listing.find? fun worker => worker.id = sought).or
      (listing.find? fun worker => worker.name = sought) with
    | none => exact fun chosen => .missed chosen
    | some worker =>
      intro chosen
      dsimp only
      rcases told : (keeper.secrets.get? keeper.workerService worker.id).exec between with
        ⟨failure | secret, after⟩
      · rw [Action.exec_bind_error told]
        exact .unanswered chosen told
      · rw [Action.exec_bind_ok told]
        exact .found chosen told

end Keeper

end SessionKeeper
