import SessionKeeper.Proofs.Keeper.Parts

/-!
# The workers on file

The file of the workers is changed by registering and by removing a worker, and by nothing else
that is done with sessions. As long as the clock shows times that come back from their text, who
takes the session lock knows its own marker again, so the marker is gone between operations and
no operation is refused the lock.
-/
namespace SessionKeeper.Keeper

variable {keeper : Keeper} {folder : Path} {place : Location} {machine after : Machine}
  {holds : Machine → Secret.Ledger → Prop} {mark : Option Node} {books : Books} {scene : Scene}
  {records : Assoc Text Json} {id name secret : Text}

variable [Runtime]

/-- That the folder stands, with these records of workers, this node for a marker of the session
lock, and a clock whose time comes back from its text. -/
structure Staffed (folder : Path) (place : Location) (mark : Option Node)
    (records : Assoc Text Json) (machine : Machine) : Prop where
  ground : Ground machine folder place
  mark : machine.under place markName = mark
  records : Record.entriesAt machine place workersName = records
  clock : machine.now.Lasts

namespace Staffed

/-- What touches neither the workers nor the marker leaves them. -/
theorem confined {α : Type} (h : Staffed folder place mark records machine) {action : Action α}
    {names : String → Prop} (confined : action.Confined folder place names)
    (workers : ¬ names workersName) (marker : ¬ names markName) :
    Staffed folder place mark records (action.exec machine).2 where
  ground := h.ground.exec rfl (confined machine h.ground)
  mark := ((confined machine h.ground).under marker).trans h.mark
  records :=
    (Record.entriesAt_of_under ((confined machine h.ground).under workers)).trans h.records
  clock := by
    rw [(Machine.SameCircumstances.of_exec action machine).now]
    exact h.clock

theorem respects {α : Type} (h : Staffed folder place mark records machine) {action : Action α}
    (respects : action.Respects folder place) :
    Staffed folder place mark records (action.exec machine).2 :=
  h.confined respects.confined (not_not.mpr (.inl (isReserved_of_mem (by decide))))
    (not_not.mpr (.inr rfl))

theorem quiet (h : Staffed folder place mark records machine) (quiet : machine.Quiet after) :
    Staffed folder place mark records after where
  ground := h.ground.of_quiet quiet
  mark := (quiet.under _ _).trans h.mark
  records := (Record.entriesAt_of_under (quiet.under _ _)).trans h.records
  clock := by
    rw [quiet.circumstances.now]
    exact h.clock

theorem wrote {new : Assoc Text Json} (h : Staffed folder place mark records machine)
    (wrote : Record.Wrote place workersName new machine after) :
    Staffed folder place mark new after where
  ground := wrote.ground h.ground
  mark := (wrote.only.under (by decide)).trans h.mark
  records := wrote.entries
  clock := by
    rw [wrote.circumstances.now]
    exact h.clock

/-- Where only the marker was touched, the workers are the same. -/
theorem marked {α : Type} (h : Staffed folder place mark records machine) {action : Action α}
    {outcome : Except Failure α} (he : action.exec machine = (outcome, after))
    (only : ChangedOnly place (· = markName) machine after) :
    Staffed folder place (after.under place markName) records after where
  ground := h.ground.exec he only
  mark := rfl
  records := (Record.entriesAt_of_under (only.under (by decide))).trans h.records
  clock := by
    rw [(Machine.SameCircumstances.of_exec_eq he).now]
    exact h.clock

theorem waited (h : Staffed folder place mark records machine) {now : Moment} (lasts : now.Lasts) :
    Staffed folder place mark records { machine with now } where
  ground := ⟨h.ground.leads, h.ground.stands, h.ground.numbered⟩
  mark := h.mark
  records := h.records
  clock := lasts

end Staffed

/-- Dropping sessions leaves the workers on file. -/
theorem sheds_staffed (own : keeper.StoresIn folder place holds)
    (loyal : keeper.factory.IsLoyal keeper.stores folder place) :
    keeper.Sheds (Staffed folder place mark records) (·.IsLoyal folder place) where
  quiet _ _ h quiet := h.quiet quiet
  makes machine h := ⟨h.respects loyal.makes, fun client ho =>
    loyal.made machine client _ h.ground (Prod.ext ho rfl)⟩
  authorizes _ fits handle _ h := h.respects (fits.authorize handle)
  revokes _ fits subject _ h := h.respects (fits.revoke subject)
  strikes subject _ h := by
    rw [own.index]
    exact h.confined (Record.Store.remove_confined isFileName_indexName subject)
      (not_beside (by decide) (by decide)) (not_beside (by decide) (by decide))
  discards subject _ h := by
    rw [own.tokens]
    exact h.respects (tokens_remove_respects subject)
  forgets _ _ _ h := h.confined (own.secrets.remove_confined _ _) (not_isOwnName (by decide))
    (not_isOwnName (by decide))

omit [Runtime] in
theorem storeSecret_confined (own : keeper.StoresIn folder place holds) (service account : Text)
    (secret : Option Text) : (keeper.storeSecret service account secret).Confined folder place
      Secret.Vault.IsOwnName := by
  cases secret with
  | none => exact .of_passive (.pure _)
  | some secret =>
    rw [storeSecret]
    split_ifs
    · exact .of_passive (.pure _)
    · exact own.secrets.put_confined service account secret

/-- The records of workers with those of a session that is entered. -/
def recordsWith (records : Assoc Text Json) : Session → Assoc Text Json
  | .account _ => records
  | .worker s => records.put s.worker.id s.worker.publicRecord

/-- The one of two lists of records that an outcome leaves. -/
def recordsBy {α : Type} (changed records : Assoc Text Json) : Except Failure α → Assoc Text Json
  | .ok _ => changed
  | .error _ => records

/-- That the texts in a session's record among the workers, if it has one, are joined. -/
def HasJoinedRecord : Session → Prop
  | .account _ => True
  | .worker s => s.worker.id.IsJoined ∧ s.worker.name.IsJoined

theorem persist_yields_staffed (own : keeper.StoresIn folder place holds)
    (h : Staffed folder place mark records machine) {session : Session}
    (joined : HasJoinedRecord session) : (keeper.persist session).Yields machine fun _ after =>
      Staffed folder place mark (recordsWith records session) after := by
  have stored {before : Machine} {records : Assoc Text Json}
      (hb : Staffed folder place mark records before) (service account : Text)
      (secret : Option Text) : (keeper.storeSecret service account secret).Yields before
        fun _ after => Staffed folder place mark records after :=
    .of_exec rfl fun _ _ => hb.confined (storeSecret_confined own service account secret)
      (not_isOwnName (by decide)) (not_isOwnName (by decide))
  rw [persist_eq, own.index]
  refine .bind (P := fun _ after => Staffed folder place mark (recordsWith records session) after)
    ?_ fun _ between hb _ after he => ?_
  · cases session with
    | account s => exact stored h _ _ _
    | worker s =>
      rw [storeBacking, own.workers]
      have regular := (Worker.isRegular_publicRecord joined.1 joined.2).roomy (by decide)
      refine .bind (Record.Store.put_yields h.ground ⟨by decide, by decide⟩ joined.1 regular)
        fun _ between wrote => ?_
      rw [h.records] at wrote
      exact stored (h.wrote wrote) _ _ _
  · have left := hb.confined (Record.Store.put_confined isFileName_indexName session.subject
      session.indexRecord) (not_beside (by decide) (by decide)) (not_beside (by decide) (by decide))
    rwa [he] at left

/-- Making a session current puts its worker on file, unless it fails. -/
theorem enter_staffed (own : keeper.StoresIn folder place holds)
    (loyal : keeper.factory.IsLoyal keeper.stores folder place)
    (h : Keeping keeper folder place holds mark books scene) (settled : books.IsSettled)
    (staffed : Staffed folder place mark records scene.machine) {session : Session}
    (entrant : IsEntrant session) (joined : HasJoinedRecord session) : (do
      keeper.dropOthers session.subject (← keeper.indexed)
      keeper.persist session : SessionAction Unit).Ends scene fun outcome after =>
        Staffed folder place mark (recordsBy (recordsWith records session) records outcome)
          after.machine := by
  refine .bind_ok (h.step (K := fun after => after = scene.machine)
    ⟨_, indexed_exec own.index h.machine.shows, rfl⟩) fun between hb => ?_
  have keeping : Keeping keeper folder place holds mark books between :=
    ⟨hb.machine ▸ h.machine, hb.client⟩
  have manned : Attended (Staffed folder place mark records) (·.IsLoyal folder place) between :=
    ⟨hb.machine ▸ staffed, hb.client⟩
  refine .bind (SessionAction.Ends.and (dropOthers_books own loyal keeping settled session.subject)
    ((sheds_staffed own loyal).dropOthers manned session.subject _))
    (fun _ later ⟨⟨left, hl, _, _, told⟩, hs⟩ => ?_) fun _ _ ⟨_, hs⟩ => hs.machine
  obtain ⟨after, he, -⟩ := persist_books own hl.machine entrant (told rfl).1
  exact .lift (.of_exec he (persist_yields_staffed own hs.machine joined () after he))

/-- A section under the session lock is always entered, and no marker is left when it has ended. -/
theorem holding_staffed (own : keeper.StoresIn folder place holds)
    (short : keeper.lock.holder.natAbs < Json.digitLimit)
    (h : Keeping keeper folder place holds none books scene)
    (staffed : Staffed folder place none records scene.machine) {α : Type} {x : SessionAction α}
    {R : Except Failure α → Assoc Text Json}
    (within : ∀ mark between, Keeping keeper folder place holds mark books between →
      Staffed folder place mark records between.machine → x.Ends between fun outcome after =>
        Staffed folder place mark (R outcome) after.machine) :
    (keeper.lock.holding lockKey x).Ends scene fun outcome after =>
      Staffed folder place none (R outcome) after.machine := by
  obtain ⟨taken, acquired, only, stands⟩ := Lock.acquire_absent own.lock staffed.ground
    fileName?_lockKey not_isReserved_marker.1 short staffed.mark
  have balanced := (acquire_books own h.machine).1
  simp only [acquired] at balanced
  refine .holding (T := fun marker between =>
    marker = ⟨lockKey, scene.machine.now, keeper.lock.holder⟩ ∧ between = taken) ?_ ?_
  · unfold Action.Ends
    rw [acquired]
    exact ⟨rfl, rfl⟩
  · rintro marker between ⟨rfl, rfl⟩
    have entered := staffed.marked acquired only
    refine (within _ ⟨scene.client, between⟩ ⟨balanced, h.client⟩ entered).mono
      fun outcome later hl => ?_
    -- The marker is still the one that was written, so it is known again and taken away.
    have told := (stands.of_under hl.mark).tells_of_lasts
      (Lock.rejoin_of_fileName? fileName?_lockKey) staffed.clock
    obtain ⟨last, he, left, gone⟩ := Lock.release_told own.lock hl.ground fileName?_lockKey
      not_isReserved_marker.1 told
    have released := hl.marked he left
    have away : last.under place markName = none := gone
    rw [away] at released
    exact .of_exec he released

theorem replaceBy_staffed (own : keeper.StoresIn folder place holds)
    (loyal : keeper.factory.IsLoyal keeper.stores folder place)
    (short : keeper.lock.holder.natAbs < Json.digitLimit)
    (h : Keeping keeper folder place holds none books scene) (settled : books.IsSettled)
    (staffed : Staffed folder place none records scene.machine) {session : Session}
    (entrant : IsEntrant session) (joined : HasJoinedRecord session) :
    (keeper.replaceBy session).Ends scene fun outcome after => Staffed folder place none
      (recordsBy (recordsWith records session) records outcome) after.machine :=
  holding_staffed own short h staffed fun _ _ hb sb =>
    enter_staffed own loyal hb settled sb entrant joined

/-- Logging in leaves the workers on file as they are. -/
theorem login_staffed (own : keeper.StoresIn folder place holds)
    (loyal : keeper.factory.IsLoyal keeper.stores folder place)
    (short : keeper.lock.holder.natAbs < Json.digitLimit)
    (h : Keeping keeper folder place holds none books scene) (settled : books.IsSettled)
    (staffed : Staffed folder place none records scene.machine) (handle : Text) (replace : Bool) :
    (keeper.login handle replace).Ends scene fun _ after =>
      Staffed folder place none records after.machine := by
  have quiet (before after : Machine) (hb : Balanced keeper folder place holds none books before ∧
      Staffed folder place none records before) (quiet : before.Quiet after) :
      Balanced keeper folder place holds none books after ∧
        Staffed folder place none records after := ⟨hb.1.quiet own quiet, hb.2.quiet quiet⟩
  have both : Attended (fun machine => Balanced keeper folder place holds none books machine ∧
      Staffed folder place none records machine) (·.IsLoyal folder place) scene :=
    ⟨⟨h.machine, staffed⟩, h.client⟩
  rw [login_eq]
  refine .bind (screen_attended quiet both _ replace) (fun _ _ h₁ => ?_)
    fun _ _ h₁ => h₁.machine.2
  refine .bind (h₁.passive quiet (.log _ _ _)) (fun _ _ h₂ => ?_) fun _ _ h₂ => h₂.machine.2
  refine .bind (SessionAction.Ends.and
    (authorize_books own loyal ⟨h₂.machine.1, h₂.client⟩ handle.trim)
    ((sheds_staffed own loyal).authorize ⟨h₂.machine.2, h₂.client⟩ handle.trim))
    (fun session _ ⟨⟨_, told⟩, h₃⟩ => ?_) fun _ _ ⟨_, h₃⟩ => h₃.machine
  obtain ⟨entrant, keeping⟩ := told session rfl
  refine .bind (replaceBy_staffed own loyal short keeping
    ⟨settled.known, settled.owners, settled.account⟩ h₃.machine entrant trivial)
    (fun _ _ h₄ => ?_) fun _ _ h₄ => h₄
  exact .bind (P := fun _ after => Staffed folder place none records after.machine)
    (.lift (h₄.quiet (.of_passive (.log _ _ _) _))) (fun _ _ h₅ => .pure h₅) fun _ _ h₅ => h₅

def recordOf (id name : Text) (time : Moment) : Json :=
  Worker.publicRecord ⟨id.trim, name.trim, none, time⟩

/-- Registering a worker puts it on file, unless it fails. -/
theorem registerWorker_staffed (own : keeper.StoresIn folder place holds)
    (loyal : keeper.factory.IsLoyal keeper.stores folder place)
    (short : keeper.lock.holder.natAbs < Json.digitLimit)
    (h : Keeping keeper folder place holds none books scene) (settled : books.IsSettled)
    (staffed : Staffed folder place none records scene.machine)
    (joined : id.IsJoined ∧ name.IsJoined ∧ secret.IsJoined) :
    (keeper.registerWorker id name secret).Ends scene fun outcome after =>
      Staffed folder place none
        (recordsBy (records.put id.trim (recordOf id name scene.machine.now)) records outcome)
        after.machine := by
  rw [registerWorker_eq]
  refine .bind (enroll_ends id name secret) (fun session between ⟨same, told⟩ => ?_)
    fun _ _ ⟨same, _⟩ => same ▸ staffed
  obtain ⟨worker, made, rfl, some_secret⟩ := told session rfl
  subst same
  have entrant := isEntrant_of_make made h.machine.shows.clock ⟨joined.1, joined.2.2⟩ some_secret
  obtain ⟨rfl, -, -⟩ := Worker.make_ok made
  have named : HasJoinedRecord (.worker (.ofWorker
      ⟨id.trim, name.trim, some secret, scene.machine.now⟩)) :=
    ⟨Text.isJoined_trim joined.1, Text.isJoined_trim joined.2.1⟩
  refine .bind (replaceBy_staffed own loyal short h settled staffed entrant named)
    (fun _ _ h₁ => ?_) fun _ _ h₁ => h₁
  exact .bind_ok (S := fun after => Staffed folder place none
      (records.put id.trim (recordOf id name scene.machine.now)) after.machine)
    (.lift ⟨rfl, h₁.quiet (.of_passive (.log _ _ _) _)⟩) fun _ h₂ => .pure h₂

/-- Clearing leaves the workers on file as they are. -/
theorem clear_staffed (own : keeper.StoresIn folder place holds)
    (loyal : keeper.factory.IsLoyal keeper.stores folder place)
    (short : keeper.lock.holder.natAbs < Json.digitLimit)
    (h : Keeping keeper folder place holds none books scene)
    (staffed : Staffed folder place none records scene.machine) :
    keeper.clear.Ends scene fun _ after => Staffed folder place none records after.machine := by
  have noted {mark : Option Node} {before : Scene} (message : String)
      (hb : Staffed folder place mark records before.machine) :
      (liftM (Action.log .info .session message) : SessionAction Unit).Ends before fun _ after =>
        Staffed folder place mark records after.machine :=
    .lift (hb.quiet (.of_passive (.log _ _ _) _))
  unfold clear
  refine .bind (holding_staffed own short h staffed (R := fun _ => records)
    fun mark between hb sb => ?_) (fun cleared _ h₁ => ?_) fun _ _ h₁ => h₁
  · refine .bind_ok (hb.step (K := fun after => after = between.machine)
      ⟨_, current?_exec own.index hb.machine.shows, rfl⟩) fun later hl => ?_
    have staffed_still : Staffed folder place mark records later.machine := hl.machine ▸ sb
    cases books.current.map Session.recalled with
    | none => exact .bind (noted _ staffed_still) (fun _ _ h₂ => .pure h₂) fun _ _ h₂ => h₂
    | some session =>
      exact .bind ((sheds_staffed own loyal).drop ⟨staffed_still, hl.client⟩ session)
        (fun _ _ h₂ => .pure h₂.machine) fun _ _ h₂ => h₂.machine
  · dsimp only
    split_ifs
    · exact .bind (noted _ h₁) (fun _ _ h₂ => .pure h₂) fun _ _ h₂ => h₂
    · exact .pure h₁

/-- That nothing of a keeper's own was changed. -/
structure SameOwn (place : Location) (before after : Machine) : Prop where
  under : ∀ name ∈ ownNames, after.under place name = before.under place name
  keychain : after.keychain = before.keychain

omit [Runtime] in
theorem SameOwn.of_changedOnly (only : ChangedOnly place (· = markName) machine after)
    (keychain : after.keychain = machine.keychain) : SameOwn place machine after where
  under name hn := only.under (by
    rintro rfl
    exact not_isReserved_marker.2 (isReserved_of_mem hn))
  keychain := keychain

/-- That all that a keeper has of a worker was taken out, and nothing else of its own. -/
structure Dismissed (keeper : Keeper) (place : Location) (holds : Machine → Secret.Ledger → Prop)
    (id : Text) (before after : Machine) : Prop where
  record : Record.entriesAt after place workersName =
    (Record.entriesAt before place workersName).remove id
  session : Record.entriesAt after place indexName =
    (Record.entriesAt before place indexName).remove (Worker.subject id)
  secret : ∀ ledger, holds before ledger → holds after (ledger.remove keeper.workerService id)

/-- What is done before and after that leaves all that is a keeper's own does not count. -/
theorem Dismissed.among (own : keeper.StoresIn folder place holds) {first last : Machine}
    (h : Dismissed keeper place holds id machine after) (before : SameOwn place first machine)
    (later : SameOwn place after last) : Dismissed keeper place holds id first last where
  record := by
    rw [Record.entriesAt_of_under (later.under _ (by decide)), h.record,
      Record.entriesAt_of_under (before.under _ (by decide))]
  session := by
    rw [Record.entriesAt_of_under (later.under _ (by decide)), h.session,
      Record.entriesAt_of_under (before.under _ (by decide))]
  secret ledger held := own.secrets.same
    (h.secret ledger (own.secrets.same held (before.under _ (by decide)) before.keychain))
    (later.under _ (by decide)) later.keychain

/-- The books once a worker was forgotten. -/
def Books.without (books : Books) (id : Text) : Books := { books with
  current := books.current.filter fun session => session.subject.rejoin ≠ Worker.subject id
  registered := books.registered \ {id}
  secrets := Function.update books.secrets id none }

/-- Forgetting a worker returns whether there was one. -/
theorem forget_exec (own : keeper.StoresIn folder place holds)
    (h : Balanced keeper folder place holds mark books machine) (settled : books.IsSettled)
    (id : Text) : ∃ after, (keeper.forget id).exec machine =
        (.ok (books.secrets id).isSome, after) ∧
      Balanced keeper folder place holds mark (books.without id) after ∧
      Dismissed keeper place holds id machine after := by
  obtain ⟨existed, first, h₁, quiet, told⟩ := isRegistered_books own h id
  rw [settled.known, or_self, ← Bool.eq_iff_iff] at told
  subst told
  have b₁ := h.quiet own quiet
  obtain ⟨second, h₂, b₂⟩ := workers_remove_books own b₁ id
  obtain ⟨third, h₃, b₃⟩ := forget_secret_books own b₂ id
  obtain ⟨last, h₄, b₄⟩ := index_remove_books own b₃ (Worker.subject id)
  have struck : Record.Wrote place workersName
      ((Record.entriesAt first place workersName).remove id) first second := by
    rw [own.workers] at h₂
    exact Record.Store.remove_yields b₁.ground ⟨by decide, by decide⟩ id () second h₂
  have forgotten := own.secrets.remove_confined keeper.workerService id second b₂.ground
  rw [h₃] at forgotten
  have dropped : Record.Wrote place indexName
      ((Record.entriesAt third place indexName).remove (Worker.subject id)) third last := by
    rw [own.index] at h₄
    exact Record.Store.remove_yields b₃.ground isFileName_indexName _ () last h₄
  have away {name : String} (plain : name.toList.head? ≠ some '.') :
      third.under place name = second.under place name := forgotten.under (not_isOwnName plain)
  refine ⟨last, (Action.exec_bind_ok h₁).trans ((Action.exec_bind_ok h₂).trans
    ((Action.exec_bind_ok h₃).trans ((Action.exec_bind_ok h₄).trans rfl))), b₄, ?_, ?_, ?_⟩
  · rw [Record.entriesAt_of_under (dropped.only.under (by decide)),
      Record.entriesAt_of_under (away (by decide)), struck.entries,
      Record.entriesAt_of_under (quiet.under _ _)]
  · rw [dropped.entries, Record.entriesAt_of_under (away (by decide)),
      Record.entriesAt_of_under (struck.only.under (by decide)),
      Record.entriesAt_of_under (quiet.under _ _)]
  · intro ledger held
    have held₁ := own.secrets.same held (quiet.under _ _) quiet.keychain
    have held₂ := own.secrets.same held₁ (struck.only.under (by decide)) struck.keychain
    obtain ⟨after, he, -, left⟩ := own.secrets.remove b₂.ground
      (b₂.shows.orderly.writable _ (by decide)) held₂ keeper.workerService id
    obtain rfl : after = third := (Prod.mk.inj (he.symm.trans h₃)).2
    exact own.secrets.same left (dropped.only.under (by decide)) dropped.keychain

/-- Removing a worker always returns whether there was one, and leaves nothing of it. -/
theorem removeWorker_exec (own : keeper.StoresIn folder place holds)
    (short : keeper.lock.holder.natAbs < Json.digitLimit)
    (h : Balanced keeper folder place holds none books machine) (settled : books.IsSettled)
    (staffed : Staffed folder place none records machine) (id : Text) :
    ∃ after, (keeper.removeWorker id).exec machine = (.ok (books.secrets id).isSome, after) ∧
      Balanced keeper folder place holds none (books.without id) after ∧
      Staffed folder place none (records.remove id) after ∧
      Dismissed keeper place holds id machine after := by
  obtain ⟨taken, acquired, only, stands⟩ := Lock.acquire_absent own.lock staffed.ground
    fileName?_lockKey not_isReserved_marker.1 short staffed.mark
  have balanced := (acquire_books own h).1
  have keychain := Lock.acquire_keychain keeper.lock lockKey machine
  simp only [acquired] at balanced keychain
  obtain ⟨done, forgot, left, dismissed⟩ := forget_exec own balanced settled id
  have told := (stands.of_under left.mark).tells_of_lasts
    (Lock.rejoin_of_fileName? fileName?_lockKey) staffed.clock
  obtain ⟨last, released, freed, gone⟩ := Lock.release_told own.lock left.ground
    fileName?_lockKey not_isReserved_marker.1 told
  have same := Lock.release_keychain keeper.lock ⟨lockKey, machine.now, keeper.lock.holder⟩ done
  have marked := left.marked own (by rw [released]; exact freed) same
  have away : last.under place markName = none := gone
  simp only [released, away] at marked same
  have held : (keeper.lock.holding lockKey (keeper.forget id)).exec machine =
      (.ok (books.secrets id).isSome, last) := by
    rw [Action.exec_holding, acquired]
    simp only [forgot, released]
    rfl
  obtain ⟨after, noted, quiet⟩ : ∃ after, (do
      if (books.secrets id).isSome then Action.log .info .session "Removed worker"
      return (books.secrets id).isSome : Action Bool).exec last =
        (.ok (books.secrets id).isSome, after) ∧ last.Quiet after := by
    cases (books.secrets id).isSome with
    | true => exact ⟨_, rfl, .of_passive (.log _ _ _) last⟩
    | false => exact ⟨last, rfl, .refl last⟩
  have removed : (keeper.removeWorker id).exec machine = (.ok (books.secrets id).isSome, after) :=
    (Action.exec_bind_ok held).trans noted
  have gone_all := dismissed.among own (.of_changedOnly only keychain)
    ⟨fun name hn => (quiet.under _ _).trans ((SameOwn.of_changedOnly freed same).under name hn),
      quiet.keychain.trans same⟩
  have settled_books := marked.quiet own quiet
  refine ⟨after, removed, settled_books,
    ⟨settled_books.ground, settled_books.mark, ?_, ?_⟩, gone_all⟩
  · rw [gone_all.record, staffed.records]
  · rw [(Machine.SameCircumstances.of_exec_eq removed).now]
    exact staffed.clock

/-- What an operation that is done at a time makes of the records of workers. -/
def recordsAfter (records : Assoc Text Json) (time : Moment) : Operation → Ending → Assoc Text Json
  | .registerWorker id name _, .ok _ => records.put id.trim (recordOf id name time)
  | .removeWorker id, .ok _ => records.remove id
  | _, _ => records

/-- What is asked of the texts of an operation: all those of a registration are joined. -/
def Operation.IsPlain : Operation → Prop
  | .registerWorker id name secret => id.IsJoined ∧ name.IsJoined ∧ secret.IsJoined
  | _ => True

/-- Every operation leaves the workers on file that its outcome tells. -/
theorem perform_staffed (own : keeper.StoresIn folder place holds)
    (loyal : keeper.factory.IsLoyal keeper.stores folder place)
    (short : keeper.lock.holder.natAbs < Json.digitLimit)
    (h : Keeping keeper folder place holds none books scene) (settled : books.IsSettled)
    (staffed : Staffed folder place none records scene.machine) {operation : Operation}
    (plain : operation.IsPlain) : (keeper.perform operation).Ends scene fun ending after =>
      Staffed folder place none (recordsAfter records scene.machine.now operation ending)
        after.machine := by
  cases operation with
  | login handle replace =>
    refine .bind (login_staffed own loyal short h settled staffed handle replace)
      (fun _ _ ha => .pure ?_) fun _ _ ha => ?_
    · exact ha
    · exact ha
  | registerWorker id name secret =>
    exact .bind (registerWorker_staffed own loyal short h settled staffed plain)
      (fun _ _ ha => .pure ha) fun _ _ ha => ha
  | clear =>
    refine (clear_staffed own loyal short h staffed).mono fun ending _ ha => ?_
    cases ending <;> exact ha
  | removeWorker id =>
    obtain ⟨after, removed, -, left, -⟩ := removeWorker_exec own short h.machine settled staffed id
    exact .bind_ok (S := fun after => Staffed folder place none (records.remove id) after.machine)
      (.lift (.of_exec removed ⟨rfl, left⟩)) fun _ ha => .pure ha
  | load =>
    refine .lift ((load_looks own h.machine).mono fun ending _ looked => ?_)
    have left := staffed.quiet looked
    cases ending <;> exact left

end SessionKeeper.Keeper
