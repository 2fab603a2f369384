import SessionKeeper.Proofs.Keeper.Steps

/-!
# Being cut short

Whoever stops an operation between two of its steps leaves what was written so far. Loading then
gives no session or one whose secret is there, since the index is written last when a session is
entered and first when one is dropped. Removing a worker takes its secret before its session, and so
the session of that worker alone can be left without its secret.
-/
namespace SessionKeeper.Keeper

/-- That the secret of a session is there, unless it is one of a worker that may be lost. The
session of a worker is the worker's own. -/
def HasSecret (lost : Text → Prop) : Session → Prop
  | .account s => s.passphrase.isSome
  | .worker s => s.subject = Worker.subject s.worker.id ∧
      (s.worker.secret.isSome ∨ lost s.worker.id)

/-- That the books have the secret of a session, unless it may be lost. -/
def Books.Covers (books : Books) (lost : Text → Prop) : Session → Prop
  | .account s => s.subject ∈ books.owners
  | .worker s => s.subject = Worker.subject s.worker.id ∧
      ((books.secrets s.worker.id).isSome ∨ lost s.worker.id)

/-- That the books have the secret of the session that is current, unless it may be lost. -/
def Books.IsWhole (books : Books) (lost : Text → Prop) : Prop :=
  ∀ session, books.current = some session → books.Covers lost session.recalled

variable {keeper : Keeper} {folder : Path} {place : Location} {machine before after : Machine}
  {holds : Machine → Secret.Ledger → Prop} {mark : Option Node} {books : Books} {scene : Scene}
  {lost : Text → Prop}

theorem rejoin_subject (id : Text) : (Worker.subject id).rejoin = Worker.subject id.rejoin := by
  show (Text.ofChars "worker:".toList ++ id).rejoin = Text.ofChars "worker:".toList ++ id.rejoin
  induction "worker:".toList with
  | nil => rfl
  | cons c cs ih => exact (Text.rejoin_char c _).trans (congrArg (List.cons (Point.char c)) ih)

namespace Books

theorem isWhole_of_none (none_left : books.current = none) : books.IsWhole lost := by
  intro session hs
  rw [none_left] at hs
  cases hs

namespace IsWhole

/-- One more passphrase takes nothing from anybody. -/
theorem with_owner (h : books.IsWhole lost) (subject : Text) :
    Books.IsWhole { books with owners := insert subject books.owners } lost := by
  intro session hs
  have covers := h session hs
  cases session with
  | account s => exact Set.mem_insert_of_mem _ covers
  | worker s => exact covers

/-- Nor does one more secret, with whatever ids are registered. -/
theorem with_secret (h : books.IsWhole lost) (registered : Set Text) (id secret : Text) :
    Books.IsWhole { books with
      registered, secrets := Function.update books.secrets id (some secret) } lost := by
  intro session hs
  have covers := h session hs
  cases session with
  | account s => exact covers
  | worker s =>
    refine ⟨covers.1, covers.2.imp_left fun found => ?_⟩
    show (Function.update books.secrets id (some secret) s.worker.recalled.id).isSome = true
    rw [Function.update_apply]
    split_ifs
    · rfl
    · exact found

theorem mono {more : Text → Prop} (h : books.IsWhole lost) (imp : ∀ id, lost id → more id) :
    books.IsWhole more := by
  intro session hs
  have covers := h session hs
  cases session with
  | account s => exact covers
  | worker s => exact ⟨covers.1, covers.2.imp_right (imp _)⟩

/-- With the secret of a worker gone, only the session of that worker is without one. -/
theorem without_secret (h : books.IsWhole lost) (id : Text) : Books.IsWhole { books with
    secrets := Function.update books.secrets id none } fun other => lost other ∨ other = id := by
  intro session hs
  have covers := h session hs
  cases session with
  | account s => exact covers
  | worker s =>
    refine ⟨covers.1, ?_⟩
    show (Function.update books.secrets id none s.worker.recalled.id).isSome = true ∨ _
    rw [Function.update_apply]
    split_ifs with same
    · exact .inr (.inr same)
    · exact covers.2.imp_right .inl

/-- With the session of that worker gone, none is. -/
theorem without_session {id : Text} (h : books.IsWhole fun other => lost other ∨ other = id) :
    Books.IsWhole { books with current := books.current.filter fun session =>
      session.subject.rejoin ≠ Worker.subject id } lost := by
  intro session hs
  obtain ⟨current, other⟩ := Option.filter_eq_some_iff.mp hs
  have covers := h session current
  cases session with
  | account s => exact covers
  | worker s =>
    obtain ⟨subject, kept | missing | same⟩ := covers
    · exact ⟨subject, .inl kept⟩
    · exact ⟨subject, .inr missing⟩
    · exact absurd (subject.trans (congrArg Worker.subject same)) (of_decide_eq_true other)

theorem entered (books : Books) {session : Session} (entrant : IsEntrant session)
    (trimmed : ∀ s, session = .worker s → s.worker.id.trim = s.worker.id) :
    (books.entered session).IsWhole lost := by
  intro other ho
  obtain rfl := Option.some.inj ((books.entered_current session).symm.trans ho)
  cases session with
  | account s =>
    show s.subject.rejoin ∈ insert s.subject books.owners
    rw [entrant.1.rejoin]
    exact Set.mem_insert _ _
  | worker s =>
    obtain ⟨subject, joined, -, secret, hs, -, -⟩ := entrant
    have id : s.worker.recalled.id = s.worker.id := by
      show s.worker.id.rejoin.trim = s.worker.id
      rw [Text.rejoin_of_isJoined joined, trimmed s rfl]
    have own : s.subject.rejoin = s.subject := by
      rw [subject, rejoin_subject, Text.rejoin_of_isJoined joined]
    show s.subject.rejoin = Worker.subject s.worker.recalled.id ∧
      ((Function.update books.secrets s.worker.id s.worker.secret s.worker.recalled.id).isSome ∨ _)
    rw [id, own, Function.update_self, hs]
    exact ⟨subject, .inl rfl⟩

end IsWhole

end Books

section

variable [Runtime]

theorem registered_id (own : keeper.StoresIn folder place holds) (g : Ground machine folder place)
    {ids : Set Text} (workers : HasWorkers place ids machine) {worker : Worker}
    (trimmed : worker.id.trim = worker.id) : ∃ found after,
      (keeper.registered worker).exec machine = (.ok found, after) ∧ found.id = worker.id ∧
        machine.Quiet after := by
  obtain ⟨entries, held, -, named⟩ := workers
  have found := Record.Store.get?_exec g (isRecordName_of_mem workersName (by decide)).file held
    worker.id
  rw [← own.workers] at found
  have noted : machine.Quiet ((Action.log .warning .session "Ignoring malformed worker record").exec
      machine).2 := .of_passive (.log _ _ _) machine
  unfold registered
  rw [Action.exec_bind_ok found]
  cases hv : entries.value? worker.id with
  | none => exact ⟨worker, machine, rfl, rfl, .refl machine⟩
  | some record =>
    have told := named _ (Assoc.mem_of_value? hv)
    cases record with
    | null => cases told
    | _ =>
      dsimp only
      rw [Action.exec_bind_ok (Action.exec_now machine)]
      split
      · next found hr =>
        exact ⟨found, machine, rfl, (Worker.id_of_read hr told).trans trimmed, .refl machine⟩
      · exact ⟨worker, _, rfl, rfl, noted⟩

/-- What is found for the session of the index has its secret just when the books have it. -/
theorem hydrate_tells (own : keeper.StoresIn folder place holds) (g : Ground machine folder place)
    (workers : HasWorkers place books.registered machine)
    (secrets : HasSecrets keeper holds books.secrets books.owners machine) (session : Session) :
    ∃ found after, (keeper.hydrate session.recalled).exec machine = (.ok found, after) ∧
      ∀ lost, HasSecret lost found ↔ books.Covers lost session.recalled := by
  obtain ⟨ledger, held, known, owners⟩ := secrets
  cases session with
  | account s =>
    obtain ⟨after, he, -⟩ := own.secrets.get? g held keeper.passphraseService s.subject.rejoin
    exact ⟨_, after, (Action.exec_bind_ok he).trans rfl, fun _ => (owners s.subject.rejoin).symm⟩
  | worker s =>
    have trimmed : s.worker.recalled.id.trim = s.worker.recalled.id := Text.trim_trim _
    obtain ⟨worker, between, found, same, quiet⟩ := registered_id own g workers trimmed
    have kept := own.secrets.same held (quiet.under place _) quiet.keychain
    obtain ⟨later, he, -⟩ := own.secrets.get? (g.of_quiet quiet) kept keeper.workerService worker.id
    rw [known] at he
    obtain ⟨after, noted, -⟩ := noted_exec (books.secrets worker.id) (.worker ⟨s.subject.rejoin,
      s.handle.rejoin, { worker with secret := books.secrets worker.id }⟩) later
    refine ⟨_, after, (Action.exec_bind_ok found).trans ((Action.exec_bind_ok he).trans noted),
      fun lost => ?_⟩
    show _ = Worker.subject worker.id ∧ _ ↔ _ = Worker.subject s.worker.recalled.id ∧ _
    rw [same]

/-- Where none of the keeper's own files differs from balanced ones, loading returns, and what it
gives has its secret just when the books are whole. -/
theorem load_tells (own : keeper.StoresIn folder place holds)
    (h : Balanced keeper folder place holds mark books before)
    (intact : Intact folder place before machine) :
    ∃ found after, keeper.load.exec machine = (.ok found, after) ∧
      ∀ lost, (∀ session, found = some session → HasSecret lost session) ↔ books.IsWhole lost := by
  have same (name : String) (hn : name ∈ ownNames) :
      machine.under place name = before.under place name := intact.differs.under (not_not.mpr hn)
  have current := current?_of_holds own.index intact.ground
    (h.shows.holds.of_under (same indexName (by decide))) h.shows.sound
  unfold load
  rw [Action.exec_bind_ok current]
  cases hc : books.current with
  | none =>
    exact ⟨none, machine, rfl, fun lost =>
      ⟨fun _ => Books.isWhole_of_none hc, fun _ session hs => by cases hs⟩⟩
  | some session =>
    obtain ⟨found, after, he, told⟩ := hydrate_tells own intact.ground
      (h.workers.of_under (same workersName (by decide)))
      (h.secrets.of_under own (same _ (by decide)) intact.differs.keychain) session
    refine ⟨some found, after, (Action.exec_bind_ok he).trans rfl, fun lost =>
      ⟨fun has other ho => ?_, fun whole other ho => ?_⟩⟩
    · obtain rfl := Option.some.inj (hc.symm.trans ho)
      exact (told lost).mp (has found rfl)
    · obtain rfl := Option.some.inj ho
      exact (told lost).mpr (whole session hc)

/-- That a machine differs only in other files from one with balanced and whole books. -/
def Safe (keeper : Keeper) (folder : Path) (place : Location)
    (holds : Machine → Secret.Ledger → Prop) (lost : Text → Prop) (machine : Machine) : Prop :=
  ∃ mark books before, Balanced keeper folder place holds mark books before ∧
    books.IsWhole lost ∧ Intact folder place before machine

theorem Balanced.safe (h : Balanced keeper folder place holds mark books machine)
    (whole : books.IsWhole lost) : Safe keeper folder place holds lost machine :=
  ⟨mark, books, machine, h, whole, .refl h.ground⟩

namespace Safe

theorem intact (h : Safe keeper folder place holds lost machine)
    (kept : Intact folder place machine after) : Safe keeper folder place holds lost after := by
  obtain ⟨mark, books, before, balanced, whole, same⟩ := h
  exact ⟨mark, books, before, balanced, whole, kept.ground, same.differs.trans kept.differs⟩

theorem ground (h : Safe keeper folder place holds lost machine) : Ground machine folder place := by
  obtain ⟨_, _, _, _, _, kept⟩ := h
  exact kept.ground

theorem mono {more : Text → Prop} (h : Safe keeper folder place holds lost machine)
    (imp : ∀ id, lost id → more id) : Safe keeper folder place holds more machine := by
  obtain ⟨mark, books, before, balanced, whole, intact⟩ := h
  exact ⟨mark, books, before, balanced, whole.mono imp, intact⟩

theorem load (own : keeper.StoresIn folder place holds)
    (h : Safe keeper folder place holds lost machine) :
    ∃ found after, keeper.load.exec machine = (.ok found, after) ∧
      ∀ session, found = some session → HasSecret lost session := by
  obtain ⟨mark, books, before, balanced, whole, intact⟩ := h
  obtain ⟨found, after, he, told⟩ := load_tells own balanced intact
  exact ⟨found, after, he, (told lost).mpr whole⟩

theorem whole (own : keeper.StoresIn folder place holds)
    (h : Safe keeper folder place holds lost machine)
    (balanced : Balanced keeper folder place holds mark books machine) : books.IsWhole lost := by
  obtain ⟨found, after, he, has⟩ := h.load own
  obtain ⟨other, last, hr, told⟩ := load_tells own balanced (.refl balanced.ground)
  obtain ⟨same, -⟩ := Prod.mk.inj (he.symm.trans hr)
  obtain rfl := Except.ok.inj same
  exact (told lost).mp has

/-- What touches none of the keeper's own files stays safe at every moment. -/
theorem still {α : Type} (h : Safe keeper folder place holds lost machine) {action : Action α}
    (still : action.IsStill folder place IsForeign) :
    action.Passes machine (Safe keeper folder place holds lost) :=
  ((Intact.refl h.ground).still still).mono fun _ => h.intact

end Safe

theorem step_passes {α : Type} {action : Action α} (atomic : action.IsAtomic folder place)
    (h : Balanced keeper folder place holds mark books machine) (whole : books.IsWhole lost)
    {outcome : Except Failure α} {mark' : Option Node} {left : Books}
    (he : action.exec machine = (outcome, after))
    (ha : Balanced keeper folder place holds mark' left after) (whole' : left.IsWhole lost) :
    action.Passes machine (Safe keeper folder place holds lost) := by
  have passes := atomic machine h.ground
  rw [he] at passes
  refine passes.mono fun m ⟨gm, differs⟩ => ?_
  rcases differs with differs | differs
  · exact ⟨mark, books, machine, h, whole, gm, differs.mono fun _ => isForeign_of_isTemporary⟩
  · exact ⟨mark', left, after, ha, whole', gm, differs.mono fun _ => isForeign_of_isTemporary⟩

variable {session : Session}

/-- Dropping the current session is safe at every moment: once it is out of the index nothing is
loaded. -/
theorem drop_passes (own : keeper.StoresIn folder place holds)
    (atomic : keeper.secrets.IsAtomic folder place)
    (still : keeper.factory.IsStill keeper.stores folder place)
    (h : Keeping keeper folder place holds mark books scene)
    (fits : ∀ client, scene.client = some client → client.IsStill folder place)
    (whole : books.IsWhole lost) (current : books.current = some session) :
    (keeper.drop session.recalled).Passes scene (Safe keeper folder place holds lost) := by
  have strikes : (keeper.index.remove session.subject.rejoin).IsAtomic folder place :=
    own.index ▸ Record.Store.remove_isAtomic isFileName_indexName _
  obtain ⟨between, struck, hb⟩ := index_remove_books own h.machine session.subject.rejoin
  rw [current, Option.filter_some_neg (by simp)] at hb
  unfold drop
  rw [Session.subject_recalled]
  refine .bind_step (step_passes strikes h.machine whole struck hb (Books.isWhole_of_none rfl))
    struck ?_
  cases session with
  | worker s => exact .pure _
  | account s =>
    obtain ⟨later, forgot, hl⟩ := forget_passphrase_books own hb s.subject.rejoin
    refine .bind_step (step_passes (atomic.remove _ _) hb (Books.isWhole_of_none rfl) forgot hl
      (Books.isWhole_of_none rfl)) forgot ?_
    have undisturbed : Undisturbed folder place later ⟨scene.client, later⟩ :=
      ⟨.refl hl.ground, fits⟩
    exact (dropTokens_passes still own.tokens undisturbed s.subject.rejoin).mono
      fun m kept => ⟨_, _, later, hl, Books.isWhole_of_none rfl, kept⟩

theorem dropOthers_passes (own : keeper.StoresIn folder place holds)
    (atomic : keeper.secrets.IsAtomic folder place)
    (still : keeper.factory.IsStill keeper.stores folder place)
    (h : Keeping keeper folder place holds mark books scene)
    (fits : ∀ client, scene.client = some client → client.IsStill folder place)
    (whole : books.IsWhole lost) (subject : Text) :
    (keeper.dropOthers subject (books.current.map Session.recalled).toList).Passes scene
      (Safe keeper folder place holds lost) := by
  cases hc : books.current with
  | none => exact .pure _
  | some session =>
    show (keeper.dropOthers subject [session.recalled]).Passes scene _
    rw [dropOthers]
    split
    · obtain ⟨between, noted, hb⟩ := log_books own h.machine .info .session "Replacing current session"
      refine .bind_step ((h.machine.safe whole).still (.log _ _ _)) noted ?_
      exact .bind (drop_passes own atomic still ⟨hb, h.client⟩ fits whole hc)
        fun _ _ _ _ => .pure _
    · exact .pure _

/-- Persisting a session is safe at every moment: it is in the index only once all else is
stored. -/
theorem persist_passes (own : keeper.StoresIn folder place holds)
    (atomic : keeper.secrets.IsAtomic folder place)
    (h : Balanced keeper folder place holds mark books machine) (whole : books.IsWhole lost)
    (entrant : IsEntrant session)
    (trimmed : ∀ s, session = .worker s → s.worker.id.trim = s.worker.id)
    (room : ∀ other, books.current = some other → other.subject.rejoin = session.subject) :
    (keeper.persist session).Passes machine (Safe keeper folder place holds lost) := by
  have enters : (keeper.index.put session.subject session.indexRecord).IsAtomic folder place :=
    own.index ▸ Record.Store.put_isAtomic isFileName_indexName _ _
  rw [persist_eq]
  cases session with
  | account s =>
    obtain ⟨account, passphrase, hp, hne⟩ := entrant
    obtain ⟨between, stored, hb⟩ := put_passphrase_books own h account.1 passphrase
    have kept : (Session.account s).IsSound := trivial
    obtain ⟨after, entered, ha⟩ := index_put_books own hb kept room
    have more := whole.with_owner s.subject
    have entrant : IsEntrant (.account s) := ⟨account, passphrase, hp, hne⟩
    have stores := step_passes (atomic.put _ _ _) h whole stored hb more
    rw [← storeSecret_of_ne_nil _ _ _ hne, ← hp] at stored stores
    exact .bind_step stores stored (step_passes enters hb more entered ha
      (.entered books entrant trimmed))
  | worker s =>
    obtain ⟨subject, joined, sound, secret, hs, hne, hj⟩ := entrant
    obtain ⟨first, registered, hf⟩ := workers_put_books own h joined
    obtain ⟨between, stored, hb⟩ := put_secret_books own hf ⟨joined, hj⟩
    have kept : (Session.worker s).IsSound := sound
    obtain ⟨after, entered, ha⟩ := index_put_books own hb kept room
    have registers : (keeper.workers.put s.worker.id s.worker.publicRecord).IsAtomic folder place :=
      own.workers ▸ Record.Store.put_isAtomic ⟨by decide, by decide⟩ _ _
    have entrant : IsEntrant (.worker s) := ⟨subject, joined, sound, secret, hs, hne, hj⟩
    have more := whole.with_secret (insert s.worker.id books.registered) s.worker.id secret
    have stores := step_passes (atomic.put _ _ _) hf whole stored hb more
    rw [← storeSecret_of_ne_nil _ _ _ hne, ← hs] at stored stores
    rw [← hs] at ha
    exact .bind_step (.bind_step (step_passes registers h whole registered hf whole) registered stores)
      ((Action.exec_bind_ok registered).trans stored) (step_passes enters hb more entered ha
        (.entered books entrant trimmed))

/-- What is done to remove a worker while the session lock is held. -/
def dismiss (keeper : Keeper) (id : Text) : Action Bool := do
  let existed ← keeper.isRegistered id
  keeper.workers.remove id
  keeper.secrets.remove keeper.workerService id
  keeper.index.remove (Worker.subject id)
  return existed

/-- Taking the session lock is safe at every moment, and so is giving it back after what is safe. -/
theorem lock_passes (own : keeper.StoresIn folder place holds)
    (h : Balanced keeper folder place holds mark books machine) (whole : books.IsWhole lost) :
    (keeper.lock.acquire lockKey).Passes machine (Safe keeper folder place holds lost) ∧
      ∀ marker between, (keeper.lock.acquire lockKey).exec machine = (.ok marker, between) →
        Balanced keeper folder place holds (between.under place markName) books between ∧
          ∀ later, Safe keeper folder place holds lost later →
            (keeper.lock.release marker).Passes later (Safe keeper folder place holds lost) := by
  have foreign : IsForeign markName := (by decide : markName ∉ ownNames)
  refine ⟨(h.safe whole).still (Lock.acquire_isStill own.lock fileName?_lockKey
    not_isReserved_marker.1 foreign), fun marker between taken => ?_⟩
  have acquired := acquire_books own h
  unfold Action.Ends at acquired
  rw [taken] at acquired
  obtain ⟨balanced, told⟩ := acquired
  obtain ⟨-, key⟩ := told marker rfl
  exact ⟨balanced, fun later safe => safe.still (Lock.release_isStill own.lock
    (key ▸ fileName?_lockKey) not_isReserved_marker.1 foreign)⟩

/-- A section under the session lock is safe at every moment if it is so itself. -/
theorem holding_passes (own : keeper.StoresIn folder place holds)
    (h : Keeping keeper folder place holds mark books scene) (whole : books.IsWhole lost) {α : Type}
    {x : SessionAction α}
    (within : ∀ mark between, Keeping keeper folder place holds mark books ⟨scene.client, between⟩ →
      x.Passes ⟨scene.client, between⟩ (Safe keeper folder place holds lost)) :
    (keeper.lock.holding lockKey x).Passes scene (Safe keeper folder place holds lost) := by
  obtain ⟨takes, taken⟩ := lock_passes own h.machine whole
  refine .holding takes fun marker between ht => ?_
  obtain ⟨balanced, releases⟩ := taken marker between ht
  have passes := within _ between ⟨balanced, h.client⟩
  exact ⟨passes, releases _ (passes.exec (balanced.safe whole))⟩

/-- Making a session current is safe at every moment. -/
theorem replaceBy_passes (own : keeper.StoresIn folder place holds)
    (loyal : keeper.factory.IsLoyal keeper.stores folder place)
    (atomic : keeper.secrets.IsAtomic folder place)
    (still : keeper.factory.IsStill keeper.stores folder place)
    (h : Keeping keeper folder place holds mark books scene) (settled : books.IsSettled)
    (fits : ∀ client, scene.client = some client → client.IsStill folder place)
    (whole : books.IsWhole lost) (entrant : IsEntrant session)
    (trimmed : ∀ s, session = .worker s → s.worker.id.trim = s.worker.id) :
    (keeper.replaceBy session).Passes scene (Safe keeper folder place holds lost) := by
  refine holding_passes own h whole fun mark between hb => ?_
  have safe := hb.machine.safe whole
  have indexed := indexed_exec own.index hb.machine.shows
  refine .bind_step (safe.still (indexed_isStill keeper)) indexed ?_
  have drops := dropOthers_passes own atomic still hb fits whole session.subject
  have ends := dropOthers_books own loyal hb settled session.subject
  refine .bind_ends drops (ends.and (drops.ends safe)) fun _ dropped ⟨⟨left, hd, _, _, told⟩, kept⟩ => ?_
  exact .lift (persist_passes own atomic hd.machine (kept.whole own hd.machine) entrant trimmed
    (told rfl).1)

section

variable (own : keeper.StoresIn folder place holds)
  (loyal : keeper.factory.IsLoyal keeper.stores folder place)
  (atomic : keeper.secrets.IsAtomic folder place)
  (still : keeper.factory.IsStill keeper.stores folder place)
  (h : Keeping keeper folder place holds mark books scene) (settled : books.IsSettled)
  (fits : ∀ client, scene.client = some client → client.IsStill folder place)
  (whole : books.IsWhole lost)

include own loyal atomic still h settled fits whole

theorem login_passes (handle : Text) (replace : Bool) :
    (keeper.login handle replace).Passes scene (Safe keeper folder place holds lost) := by
  have safe := h.machine.safe whole
  have looks : keeper.current?.Ends scene.machine fun _ after => scene = ⟨scene.client, after⟩ :=
    .of_exec (current?_exec own.index h.machine.shows) rfl
  rw [login_eq]
  refine .bind_ends (screen_passes (safe.still (current?_isStill keeper)) handle.trim replace)
    (screen_ends rfl looks handle.trim replace) ?_
  rintro _ _ rfl
  obtain ⟨between, noted, hb⟩ := log_books own h.machine .info .session "Starting OAuth login"
  refine .bind_step (safe.still (.log _ _ _)) noted ?_
  have undisturbed : Undisturbed folder place between ⟨scene.client, between⟩ :=
    ⟨.refl hb.ground, fits⟩
  have keeping : Keeping keeper folder place holds mark books ⟨scene.client, between⟩ :=
    ⟨hb, h.client⟩
  obtain ⟨authorizes, authorized⟩ := authorize_passes still undisturbed handle.trim
  refine .bind_ends (authorizes.mono fun _ => (hb.safe whole).intact)
    (authorized.and (authorize_books own loyal keeping handle.trim))
    fun session later ⟨kept, _, told⟩ => ?_
  obtain ⟨entrant, hl⟩ := told session rfl
  refine .bind_after (replaceBy_passes own loyal atomic still hl
    ⟨settled.known, settled.owners, settled.account⟩ kept.client whole entrant
    fun _ hs => by cases hs) (hl.machine.safe whole) fun _ after ha => ?_
  exact .bind (.lift (ha.still (.log _ _ _))) fun _ _ _ _ => .pure _

theorem registerWorker_passes {id secret : Text} (name : Text)
    (joined : id.IsJoined ∧ secret.IsJoined) :
    (keeper.registerWorker id name secret).Passes scene (Safe keeper folder place holds lost) := by
  have safe := h.machine.safe whole
  rw [registerWorker_eq]
  refine .bind_ends (enroll_passes (safe.still .now) id name secret) (enroll_ends id name secret)
    fun session between ⟨same, told⟩ => ?_
  obtain ⟨worker, made, rfl, some_secret⟩ := told session rfl
  subst same
  have entrant := isEntrant_of_make made h.machine.shows.clock joined some_secret
  have trimmed : worker.id.trim = worker.id := by
    rw [(Worker.make_ok made).1, Text.trim_trim]
  refine .bind_after (replaceBy_passes own loyal atomic still h settled fits whole entrant ?_)
    safe fun _ after ha => ?_
  · rintro _ ⟨⟩
    exact trimmed
  · exact .bind (.lift (ha.still (.log _ _ _))) fun _ _ _ _ => .pure _

omit loyal settled in
theorem clear_passes : keeper.clear.Passes scene (Safe keeper folder place holds lost) := by
  unfold clear
  refine .bind_after (holding_passes own h whole fun mark between hb => ?_) (h.machine.safe whole)
    fun found after ha => ?_
  · have safe := hb.machine.safe whole
    refine .bind_step (safe.still (current?_isStill keeper))
      (current?_exec own.index hb.machine.shows) ?_
    cases hc : books.current with
    | none => exact .bind (.lift (safe.still (.log _ _ _))) fun _ _ _ _ => .pure _
    | some session =>
      exact .bind (drop_passes own atomic still hb fits whole hc) fun _ _ _ _ => .pure _
  · dsimp only
    split
    · exact .bind (.lift (ha.still (.log _ _ _))) fun _ _ _ _ => .pure _
    · exact .pure _

omit loyal still h settled fits in
/-- What removes a worker may leave its session without the secret while it is at it, and does so
no more once it ended. -/
theorem dismiss_passes (hb : Balanced keeper folder place holds mark books machine) (id : Text) :
    (keeper.dismiss id).Passes machine
        (Safe keeper folder place holds fun other => lost other ∨ other = id) ∧
      ∃ existed after left, (keeper.dismiss id).exec machine = (.ok existed, after) ∧
        Balanced keeper folder place holds mark left after ∧ left.IsWhole lost := by
  have registers : (keeper.workers.remove id).IsAtomic folder place :=
    own.workers ▸ Record.Store.remove_isAtomic ⟨by decide, by decide⟩ _
  have enters : (keeper.index.remove (Worker.subject id)).IsAtomic folder place :=
    own.index ▸ Record.Store.remove_isAtomic isFileName_indexName _
  have struck : Books.IsWhole { books with registered := books.registered \ {id} } lost := whole
  have forgotten := struck.without_secret id
  have gone := forgotten.without_session
  obtain ⟨existed, first, h₁, quiet, -⟩ := isRegistered_books own hb id
  have b₁ := hb.quiet own quiet
  obtain ⟨second, h₂, b₂⟩ := workers_remove_books own b₁ id
  obtain ⟨third, h₃, b₃⟩ := forget_secret_books own b₂ id
  obtain ⟨last, h₄, b₄⟩ := index_remove_books own b₃ (Worker.subject id)
  unfold dismiss
  constructor
  · have wider {books : Books} (h : books.IsWhole lost) :
        books.IsWhole fun other => lost other ∨ other = id := h.mono fun _ => Or.inl
    refine .bind_step ((hb.safe (wider whole)).still ((isRegistered_isStill atomic id).mono
      fun _ => isForeign_of_isTemporary)) h₁ ?_
    refine .bind_step (step_passes registers b₁ (wider whole) h₂ b₂ (wider struck)) h₂ ?_
    refine .bind_step (step_passes (atomic.remove _ _) b₂ (wider struck) h₃ b₃ forgotten) h₃ ?_
    exact .bind_step (step_passes enters b₃ forgotten h₄ b₄ (wider gone)) h₄ (.pure _)
  · exact ⟨existed, last, _, (Action.exec_bind_ok h₁).trans ((Action.exec_bind_ok h₂).trans
      ((Action.exec_bind_ok h₃).trans ((Action.exec_bind_ok h₄).trans rfl))), b₄, gone⟩

omit loyal still settled fits in
theorem removeWorker_passes (id : Text) :
    (keeper.removeWorker id).Passes scene.machine
        (Safe keeper folder place holds fun other => lost other ∨ other = id) ∧
      (keeper.removeWorker id).Ends scene.machine fun _ after =>
        Safe keeper folder place holds lost after := by
  have wider : books.IsWhole fun other => lost other ∨ other = id := whole.mono fun _ => Or.inl
  have removes : (keeper.lock.holding lockKey (keeper.dismiss id) : Action Bool).Passes scene.machine
      (Safe keeper folder place holds fun other => lost other ∨ other = id) := by
    obtain ⟨takes, taken⟩ := lock_passes own h.machine wider
    refine .holding takes fun marker between ht => ?_
    obtain ⟨balanced, releases⟩ := taken marker between ht
    have passes := (dismiss_passes own atomic whole balanced id).1
    exact ⟨passes, releases _ (passes.exec (balanced.safe wider))⟩
  have removed : (keeper.lock.holding lockKey (keeper.dismiss id) : Action Bool).Ends scene.machine
      fun _ after => Safe keeper folder place holds lost after := by
    refine SessionAction.Ends.holding_alone scene ((holding_books own h (S := fun _ left => left.IsWhole lost)
      (fun _ => whole) fun mark between hb => ?_).mono fun _ after ⟨_, _, ha, kept⟩ =>
        ha.machine.safe kept)
    obtain ⟨-, existed, last, left, he, hl, kept⟩ := dismiss_passes own atomic whole hb.machine id
    exact .lift (.of_exec he ⟨left, ⟨hl, hb.client⟩, kept⟩)
  have noted {lost : Text → Prop} (existed : Bool) (between : Machine)
      (hb : Safe keeper folder place holds lost between) : (do
        if existed then Action.log .info .session "Removed worker"
        return existed : Action Bool).Passes between (Safe keeper folder place holds lost) := by
    cases existed with
    | true => exact .bind (hb.still (.log _ _ _)) fun _ _ _ => .pure _
    | false => exact .pure _
  exact ⟨.bind_after removes (h.machine.safe wider) noted,
    .bind removed (fun existed between hb => (noted existed between hb).exec hb) fun _ _ hb => hb⟩

/-- The workers whose session an operation may leave without its secret when it is cut short. -/
def Operation.Forgets : Operation → Text → Prop
  | .removeWorker id, other => other = id
  | _, _ => False

/-- Every operation on whole books is safe at every moment but for what it forgets, and leaves a
machine that is safe altogether. -/
theorem perform_passes {operation : Operation} (joined : operation.IsJoined) :
    (keeper.perform operation).Passes scene
        (Safe keeper folder place holds fun id => lost id ∨ operation.Forgets id) ∧
      (keeper.perform operation).Ends scene fun _ after =>
        Safe keeper folder place holds lost after.machine := by
  have safe := h.machine.safe whole
  have throughout {x : SessionAction (Option Session)}
      (passes : x.Passes scene (Safe keeper folder place holds lost)) :
      x.Passes scene (Safe keeper folder place holds fun id => lost id ∨ operation.Forgets id) ∧
        x.Ends scene fun _ after => Safe keeper folder place holds lost after.machine :=
    ⟨passes.mono fun _ hm => hm.mono fun _ => Or.inl, passes.ends safe⟩
  cases operation with
  | login handle replace =>
    exact throughout (.bind (login_passes own loyal atomic still h settled fits whole handle replace)
      fun _ _ _ _ => .pure _)
  | registerWorker id name secret =>
    exact throughout (.bind (registerWorker_passes own loyal atomic still h settled fits whole name
      joined) fun _ _ _ _ => .pure _)
  | clear => exact throughout (clear_passes own atomic still h fits whole)
  | removeWorker id =>
    obtain ⟨passes, ended⟩ := removeWorker_passes own atomic h whole id
    exact ⟨.bind (.lift passes) fun _ _ _ _ => .pure _,
      .bind (P := fun _ after => Safe keeper folder place holds lost after.machine) (.lift ended)
        (fun _ _ ha => .pure ha) fun _ _ ha => ha⟩
  | load =>
    exact throughout (.lift (safe.still ((load_isStill atomic).mono
      fun _ => isForeign_of_isTemporary)))

end

/-- What a run leaves: settled books that are whole, and a client that is still. -/
theorem whole_of_run (own : keeper.StoresIn folder place holds)
    (loyal : keeper.factory.IsLoyal keeper.stores folder place)
    (atomic : keeper.secrets.IsAtomic folder place)
    (still : keeper.factory.IsStill keeper.stores folder place) {start : Machine}
    (fresh : Balanced keeper folder place holds mark books start) (settled : books.IsSettled)
    (whole : books.IsWhole lost) {trace : Trace}
    (run : Run keeper (fun c => c.IsLoyal folder place ∧ c.IsStill folder place) start trace scene)
    (joined : ∀ step ∈ trace, step.1.IsJoined) :
    ∃ mark left, Keeping keeper folder place holds mark left scene ∧ left.IsSettled ∧
      left.IsWhole lost ∧ ∀ client, scene.client = some client → client.IsStill folder place := by
  -- The books of `books_of_run` once more, with the client, which may be another after each login.
  induction run with
  | start =>
    exact ⟨mark, books, ⟨fresh, fun _ hc => by cases hc⟩, settled, whole, fun _ hc => by cases hc⟩
  | @perform trace scene after ending operation before ends ih =>
    obtain ⟨mark, left, hl, fit, kept, fits⟩ :=
      ih fun step hs => joined step (List.mem_cons_of_mem _ hs)
    have fine : operation.IsJoined := joined (operation, ending) List.mem_cons_self
    have performed := perform_books own loyal hl fit fine
    have safe := (perform_passes own loyal atomic still hl fit fits kept fine).2
    have stays := client_of_perform still.made fits operation
    unfold SessionAction.Ends at performed safe stays
    rw [ends] at performed safe stays
    obtain ⟨mark, last, ha, fit, -, -⟩ := performed
    exact ⟨mark, last, ha, fit, safe.whole own ha.machine, stays⟩
  | wait now sound before ih =>
    obtain ⟨mark, left, hl, rest⟩ := ih joined
    exact ⟨mark, left, ⟨hl.machine.waited own sound, hl.client⟩, rest⟩
  | meet client fits before ih =>
    obtain ⟨mark, left, hl, fit, kept, -⟩ := ih joined
    exact ⟨mark, left, ⟨hl.machine, fun c hc => (fits c hc).1⟩, fit, kept,
      fun c hc => (fits c hc).2⟩

theorem accountFactory_isStill {subject : Text} {stores : OAuth.Stores}
    (tokens : stores.sessions = ⟨folder.child tokensName⟩) :
    (accountFactory subject).IsStill stores folder place := by
  refine ⟨.pure _, fun machine client after h => ?_⟩
  obtain ⟨⟩ := h
  exact ⟨fun _ => .bind (tokens ▸ tokens_put_isStill _ _) fun _ => .pure _,
    fun subject => tokens ▸ tokens_remove_isStill subject⟩

/-- From an empty folder and without any secrets on, an operation that is stopped at any moment
leaves no session or one whose secret is there. The one exception is the session of a worker that
was being removed. Texts are taken to be joined, since what is written with a split surrogate pair
is read back joined. -/
theorem secret_outlives_crash {options : Options} {origin start : Machine}
    (made : (make folder options).exec origin = (.ok keeper, start))
    (ground : Ground origin folder place) (empty : ∀ name, origin.under place name = none)
    (clock : origin.now.IsSound) (service : options.secretService.IsJoined)
    (secrets : (options.secrets.getD (.ofVault (.inFolder folder))).Keeps folder place holds)
    (atomic : (options.secrets.getD (.ofVault (.inFolder folder))).IsAtomic folder place)
    (blank : holds origin .empty) (loyal : options.factory.IsLoyal keeper.stores folder place)
    (still : options.factory.IsStill keeper.stores folder place) {trace : Trace}
    (run : Run keeper (fun c => c.IsLoyal folder place ∧ c.IsStill folder place) start trace scene)
    (joined : ∀ step ∈ trace, step.1.IsJoined) {operation : Operation} (fine : operation.IsJoined) :
    ∀ m ∈ scene.machine :: ((keeper.perform operation).run.run scene.client).trail scene.machine,
      ∃ found after, keeper.load.exec m = (.ok found, after) ∧ ∀ session, found = some session →
        session.secret?.isSome ∨
          ∃ s, session = .worker s ∧ operation = .removeWorker s.worker.id := by
  obtain ⟨made_in, -⟩ := madeIn_of_make made
  obtain ⟨own, fresh⟩ := balanced_of_make made ground empty clock service secrets blank loyal
  have loyal : keeper.factory.IsLoyal keeper.stores folder place := made_in.factory ▸ loyal
  have still : keeper.factory.IsStill keeper.stores folder place := made_in.factory ▸ still
  have atomic : keeper.secrets.IsAtomic folder place := made_in.secrets ▸ atomic
  have blank_whole : Books.IsWhole ⟨none, ∅, fun _ => none, ∅, ∅⟩ fun _ => False :=
    Books.isWhole_of_none rfl
  obtain ⟨mark, left, hl, fit, whole, fits⟩ := whole_of_run own loyal atomic still fresh
    ⟨fun _ => by simp, rfl, fun _ hs => by cases hs⟩ blank_whole run joined
  obtain ⟨passes, -⟩ := perform_passes own loyal atomic still hl fit fits whole fine
  have begins := (hl.machine.safe whole).mono
    fun id (h : False) => (Or.inl h : False ∨ operation.Forgets id)
  intro m hm
  have safe := (List.mem_cons.mp hm).elim (fun he => he ▸ begins) (passes m)
  obtain ⟨found, after, he, has⟩ := safe.load own
  refine ⟨found, after, he, fun session hs => ?_⟩
  have kept := has session hs
  cases session with
  | account s => exact .inl kept
  | worker s =>
    obtain ⟨-, there | lost | forgets⟩ := kept
    · exact .inl there
    · exact lost.elim
    · refine .inr ⟨s, rfl, ?_⟩
      cases operation with
      | removeWorker id => exact congrArg Operation.removeWorker (Eq.symm forgets)
      | _ => exact forgets.elim

end

open scoped SessionKeeper.Runtime

/-- On the empty folder a worker is registered, and then a login that is stopped. -/
theorem secret_outlives_login : ∃ scene,
    Run steadyKeeper (fun c => c.IsLoyal ⟨"/", ["home"]⟩ ["home"] ∧ c.IsStill ⟨"/", ["home"]⟩ ["home"])
      steadyMade.2 [(.registerWorker "w" "W" "s", .ok (some steadyWorker))] scene ∧
    ∀ m ∈ scene.machine ::
        ((steadyKeeper.perform (.login "a" true)).run.run scene.client).trail scene.machine,
      ∃ found after, steadyKeeper.load.exec m = (.ok found, after) ∧
        ∀ session, found = some session → session.secret?.isSome := by
  have registered := steadyRegistered_eq
  have made : (make ⟨"/", ["home"]⟩ { factory := steadyFactory }).exec Machine.bare =
      (.ok steadyKeeper, steadyMade.2) := (eq_ok_get _ : steadyMade = _)
  unfold steadyRegistered at registered
  generalize steadyMade.2 = start at made registered
  generalize steadyKeeper = keeper at made registered
  have first : Run keeper (fun c => c.IsLoyal ⟨"/", ["home"]⟩ ["home"] ∧
    c.IsStill ⟨"/", ["home"]⟩ ["home"]) start [] ⟨none, start⟩ := .start
  have run := first.next (.registerWorker "w" "W" "s") registered
  obtain ⟨own, -⟩ := madeIn_of_make made
  have blank : Secret.Vault.HoldsLedger ["home"] Machine.bare .empty :=
    ⟨[], .inl ⟨rfl, Machine.under_bare _⟩, rfl⟩
  have still : steadyFactory.IsStill keeper.stores ⟨"/", ["home"]⟩ ["home"] :=
    accountFactory_isStill own.tokens
  have joined : ∀ step ∈ [(Operation.registerWorker "w" "W" "s",
      (.ok (some steadyWorker) : Ending))], step.1.IsJoined :=
    List.forall_mem_singleton.mpr ⟨by decide, by decide⟩
  have fine : (Operation.login "a" true).IsJoined := trivial
  refine ⟨_, run, fun m hm => ?_⟩
  obtain ⟨found, after, he, has⟩ := secret_outlives_crash made Machine.ground_bare Machine.under_bare
    isSound_bare (by decide) (Secret.Vault.keeps _ _) Secret.Vault.isAtomic blank
    (steadyFactory_isLoyal own.tokens) still run joined fine m hm
  refine ⟨found, after, he, fun session hs => (has session hs).resolve_right ?_⟩
  rintro ⟨_, -, h⟩
  cases h

/-- The secret of a worker is removed before the session is: who stops the removal in between
leaves the session without it. -/
theorem removal_leaves_session : ∃ scene,
    Run steadyKeeper (fun c => c.IsLoyal ⟨"/", ["home"]⟩ ["home"] ∧ c.IsStill ⟨"/", ["home"]⟩ ["home"])
      steadyMade.2 [(.registerWorker "w" "W" "s", .ok (some steadyWorker))] scene ∧
    ∃ m ∈ ((steadyKeeper.perform (.removeWorker "w")).run.run scene.client).trail scene.machine,
      ∃ session after, steadyKeeper.load.exec m = (.ok (some session), after) ∧
        session.secret? = none := by
  have registered := steadyRegistered_eq
  have stopped : ∃ m ∈ ((steadyKeeper.perform (.removeWorker "w")).run.run
      steadyRegistered.2.1).trail steadyRegistered.2.2,
        (steadyKeeper.load.exec m).1.toOption.map (Option.map Session.secret?) =
          some (some none) := by
    decide +kernel
  unfold steadyRegistered at registered stopped
  generalize steadyMade.2 = start at registered stopped
  generalize steadyKeeper = keeper at registered stopped
  have first : Run keeper (fun c => c.IsLoyal ⟨"/", ["home"]⟩ ["home"] ∧
    c.IsStill ⟨"/", ["home"]⟩ ["home"]) start [] ⟨none, start⟩ := .start
  refine ⟨_, first.next (.registerWorker "w" "W" "s") registered, ?_⟩
  obtain ⟨m, hm, lost⟩ := stopped
  refine ⟨m, hm, ?_⟩
  rcases he : keeper.load.exec m with ⟨failure | _ | session, after⟩ <;> rw [he] at lost
  · cases lost
  · cases lost
  · exact ⟨session, after, rfl, Option.some.inj (Option.some.inj lost)⟩

end SessionKeeper.Keeper
