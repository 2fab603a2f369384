import SessionKeeper.Proofs.Keeper.Attended
import SessionKeeper.Proofs.Lock.Section
import SessionKeeper.Proofs.Secret.Ledger
import SessionKeeper.Proofs.Session.Listed

/-!
# Sessions that are stored

Whatever the index holds, dropping the sessions of other subjects leaves those of one subject,
and persisting a session of that subject replaces them. The session is then the only one of
the index, its secret is in the backend, and loading it gives it back as it was stored.
-/
namespace SessionKeeper

/-- The machine once the keeper has logged a warning so many times. -/
def Machine.warned (machine : Machine) (warning : String) (count : Nat) : Machine :=
  { machine with
    transcript := machine.transcript ++ List.replicate count (.log ⟨.warning, .session, warning⟩) }

theorem Machine.quiet_warned (machine : Machine) (warning : String) (count : Nat) :
    machine.Quiet (machine.warned warning count) := ⟨⟨rfl, rfl, rfl, rfl, rfl, rfl, rfl⟩, rfl⟩

theorem Machine.warned_zero (machine : Machine) (warning : String) :
    machine.warned warning 0 = machine := by
  rw [warned, List.replicate_zero, List.append_nil]

theorem Machine.warned_succ (machine : Machine) (warning : String) (count : Nat) :
    machine.warned warning (count + 1) =
      (machine.tell (.log ⟨.warning, .session, warning⟩)).warned warning count := by
  rw [warned, List.replicate_succ, warned, tell, List.append_assoc]
  rfl

namespace Keeper

variable {keeper : Keeper} {folder : Path} {place : Location} {machine : Machine}
  {holds : Machine → Secret.Ledger → Prop}

/-- Reading all values gives those that can be read, with one warning for each of the others. -/
theorem readAll_warns {α : Type} (read : Json → Schema.Reading α) (warning : String)
    (values : List Json) (machine : Machine) : (readAll read warning values).exec machine =
      (.ok (values.filterMap fun value => (read value).toOption),
        machine.warned warning (values.countP fun value => !(read value).isOk)) := by
  induction values generalizing machine with
  | nil =>
    rw [List.countP_nil, Machine.warned_zero]
    rfl
  | cons value rest ih =>
    rw [readAll]
    cases hr : read value with
    | ok a =>
      rw [List.filterMap_cons_some (by rw [hr]; rfl),
        List.countP_cons_of_neg (by rw [hr]; exact Bool.false_ne_true)]
      exact (Action.exec_bind_ok (ih machine)).trans rfl
    | error issues =>
      rw [List.filterMap_cons_none (by rw [hr]; rfl), List.countP_cons_of_pos (by rw [hr]; rfl),
        Machine.warned_succ]
      exact (Action.exec_bind_ok rfl).trans (ih _)

theorem readAll_exec {α : Type} (read : Json → Schema.Reading α) (warning : String)
    (values : List Json) (machine : Machine) : ∃ after, (readAll read warning values).exec machine =
      (.ok (values.filterMap fun value => (read value).toOption), after) ∧ machine.Quiet after :=
  ⟨_, readAll_warns read warning values machine, machine.quiet_warned _ _⟩

variable [Runtime]

theorem indexed_of_entries {entries : Assoc Text Json} {between : Machine}
    (found : keeper.index.entries.exec machine = (.ok entries, between)) :
    ∃ after, keeper.indexed.exec machine = (.ok (Session.listed machine.now entries), after) ∧
      between.Quiet after := by
  obtain ⟨after, read, quiet⟩ := readAll_exec (Session.read machine.now)
    "Skipping malformed session record" (entries.map Prod.snd) between
  refine ⟨after, ?_, quiet⟩
  rw [indexed, Action.exec_bind_ok (Action.exec_now machine), Action.exec_bind_ok found, read,
    List.filterMap_map]
  rfl

/-- The current session is the first one of the index; that there are others is only noted. -/
theorem current?_of_entries {entries : Assoc Text Json} {between : Machine}
    (found : keeper.index.entries.exec machine = (.ok entries, between)) :
    ∃ after, keeper.current?.exec machine = (.ok (Session.listed machine.now entries).head?, after) ∧
      between.Quiet after := by
  obtain ⟨after, indexed, quiet⟩ := indexed_of_entries found
  rw [current?, Action.exec_bind_ok indexed]
  rcases Session.listed machine.now entries with _ | ⟨first, _ | ⟨second, rest⟩⟩
  · exact ⟨after, rfl, quiet⟩
  · exact ⟨after, rfl, quiet⟩
  · exact ⟨_, rfl, quiet.trans (.of_passive (.log _ _ _) after)⟩

/-- That a keeper has its files in a folder, with a backend that keeps a ledger and clients
that keep to files of their own. -/
structure StoresIn (keeper : Keeper) (folder : Path) (place : Location)
    (holds : Machine → Secret.Ledger → Prop) : Prop where
  index : keeper.index = ⟨folder.child indexName⟩
  workers : keeper.workers = ⟨folder.child workersName⟩
  tokens : keeper.stores.sessions = ⟨folder.child tokensName⟩
  lock : keeper.lock.folder = folder
  service : keeper.secretService.IsJoined
  secrets : keeper.secrets.Keeps folder place holds
  clients : keeper.factory.IsApart keeper.stores folder place

namespace StoresIn

omit [Runtime] in
theorem isJoined_workerService (own : keeper.StoresIn folder place holds) :
    keeper.workerService.IsJoined := Text.isJoined_append_ofChars own.service "-worker".toList

omit [Runtime] in
theorem isJoined_passphraseService (own : keeper.StoresIn folder place holds) :
    keeper.passphraseService.IsJoined :=
  Text.isJoined_append_ofChars own.service "-passphrase".toList

end StoresIn

/-- What a machine has in the index at a time. -/
structure Indexes (folder : Path) (place : Location) (now : Moment) (entries : Assoc Text Json)
    (machine : Machine) : Prop where
  ground : Ground machine folder place
  index : Record.entriesAt machine place indexName = entries
  now : machine.now = now

/-- A scene with such an index and a client that keeps apart. -/
abbrev Indexed (folder : Path) (place : Location) (now : Moment) (entries : Assoc Text Json) :
    Scene → Prop :=
  Attended (Indexes folder place now entries) (·.IsApart folder place)

variable {now : Moment} {entries : Assoc Text Json} {scene : Scene}

theorem Indexes.isRegular (h : Indexes folder place now entries machine) :
    (Json.obj entries).IsRegular (Runtime.reads + 1) :=
  h.index ▸ Record.isRegular_entriesAt machine place indexName

/-- What touches other files leaves the index. -/
theorem Indexes.confined {α : Type} (h : Indexes folder place now entries machine)
    {action : Action α} {names : String → Prop} (confined : action.Confined folder place names)
    (other : ¬ names indexName) : Indexes folder place now entries (action.exec machine).2 where
  ground := h.ground.exec rfl (confined machine h.ground)
  index := (Record.entriesAt_of_under ((confined machine h.ground).under other)).trans h.index
  now := (Machine.SameCircumstances.of_exec action machine).now.trans h.now

theorem Indexes.quiet {after : Machine} (h : Indexes folder place now entries machine)
    (quiet : machine.Quiet after) : Indexes folder place now entries after where
  ground := h.ground.of_quiet quiet
  index := (Record.entriesAt_of_under (quiet.under _ _)).trans h.index
  now := quiet.circumstances.now.trans h.now

omit [Runtime] in
theorem isFileName_indexName : Tree.IsFileName indexName := ⟨by decide, by decide⟩

omit [Runtime] in
/-- No name but one that starts with a dot is written beside another one. -/
theorem not_beside {own name : String} (plain : name.toList.head? ≠ some '.') (other : name ≠ own) :
    ¬ (name = own ∨ ∃ k, name = Machine.temporaryName own k) := by
  rintro (same | ⟨k, rfl⟩)
  · exact other same
  · refine plain ?_
    simp only [Machine.temporaryName, String.toList_append]
    rfl

omit [Runtime] in
theorem not_isOwnName {name : String} (h : name.toList.head? ≠ some '.') :
    ¬ Secret.Vault.IsOwnName name := not_beside h fun same => h (by rw [same]; decide)

theorem indexed_yields (own : keeper.StoresIn folder place holds)
    (h : Indexes folder place now entries machine) :
    keeper.indexed.Yields machine fun sessions after =>
      sessions = Session.listed now entries ∧ machine.Quiet after := by
  rw [indexed, own.index]
  refine .bind (P := fun clock after => clock = now ∧ after = machine)
    (.of_exec (Action.exec_now machine) fun clock hc => ⟨?_, rfl⟩) fun clock between hb => ?_
  · rw [← Except.ok.inj hc, h.now]
  obtain ⟨rfl, rfl⟩ := hb
  refine .bind (Record.Store.entries_yields h.ground isFileName_indexName) fun found later hl => ?_
  obtain ⟨rfl, quiet⟩ := hl
  obtain ⟨after, he, more⟩ := readAll_exec (Session.read clock)
    "Skipping malformed session record" (List.map Prod.snd entries) later
  rw [h.index]
  refine .of_exec he fun sessions hs => ⟨?_, quiet.trans more⟩
  rw [← Except.ok.inj hs, List.filterMap_map]
  rfl

theorem Indexes.wrote {after : Machine} {new : Assoc Text Json}
    (h : Indexes folder place now entries machine)
    (wrote : Record.Wrote place indexName new machine after) : Indexes folder place now new after where
  ground := wrote.ground h.ground
  index := wrote.entries
  now := wrote.circumstances.now.trans h.now

/-- Writing another store leaves the index. -/
theorem Indexes.wrote_other {after : Machine} {name : String} {new : Assoc Text Json}
    (h : Indexes folder place now entries machine) (other : indexName ≠ name)
    (wrote : Record.Wrote place name new machine after) : Indexes folder place now entries after where
  ground := wrote.ground h.ground
  index := (Record.entriesAt_of_under (wrote.only.under other)).trans h.index
  now := wrote.circumstances.now.trans h.now

omit [Runtime] in
theorem not_isReserved_index : ¬ ¬ IsReserved indexName :=
  not_not.mpr (isReserved_of_mem mem_indexName)

theorem makes_indexed (own : keeper.StoresIn folder place holds)
    (h : Indexes folder place now entries machine) :
    (keeper.factory keeper.stores).Ends machine fun outcome after =>
      Indexes folder place now entries after ∧
        ∀ client, outcome = .ok client → client.IsApart folder place :=
  ⟨h.confined own.clients.makes not_isReserved_index, fun client ho =>
    own.clients.made machine client _ h.ground (Prod.ext ho rfl)⟩

/-- Whatever becomes of the tokens, the index has what it had. -/
theorem dropTokens_indexed (own : keeper.StoresIn folder place holds)
    (h : Indexed folder place now entries scene) (subject : Text) :
    (keeper.dropTokens subject).Yields scene fun _ after => Indexed folder place now entries after := by
  refine .of_ends ((dropTokens_attended (R := fun _ => Indexes folder place now entries)
    (fun _ hm => makes_indexed own hm) (fun client apart _ hm => ?_) (fun _ hm => ?_)
    (fun _ _ hm => hm) h).mono fun _ _ ha _ _ => ha)
  · exact hm.confined (apart.revoke subject) not_isReserved_index
  · rw [own.tokens]
    exact hm.confined (Record.Store.remove_confined ⟨by decide, by decide⟩ subject) fun names =>
      not_isReserved_tokens indexName names (isReserved_of_mem mem_indexName)

theorem drop_indexed (own : keeper.StoresIn folder place holds)
    (h : Indexed folder place now entries scene) (session : Session) :
    (keeper.drop session).Yields scene fun _ after =>
      Indexed folder place now (entries.remove session.subject) after := by
  unfold drop
  rw [own.index]
  refine .bind (P := fun _ after => Indexed folder place now (entries.remove session.subject) after)
    (.lift ?_) fun _ between hb => ?_
  · refine (Record.Store.remove_yields h.machine.ground isFileName_indexName session.subject).mono ?_
    intro _ after wrote
    rw [h.machine.index] at wrote
    exact ⟨h.machine.wrote wrote, h.client⟩
  · cases session with
    | worker s => exact .pure hb
    | account s =>
      refine .bind (P := fun _ after => Indexed folder place now
        (entries.remove (Session.account s).subject) after) (.lift (.of_exec rfl fun _ _ => ?_))
        fun _ later hl => dropTokens_indexed own hl _
      exact ⟨hb.machine.confined (own.secrets.remove_confined _ _) (not_isOwnName (by decide)),
        hb.client⟩

theorem dropOthers_indexed (own : keeper.StoresIn folder place holds)
    (h : Indexed folder place now entries scene) (filed : Session.AreFiled entries) (subject : Text)
    (others : List Session) (covered : ∀ session ∈ Session.listed now entries,
      session.subject = subject ∨ ∃ other ∈ others, other.subject = session.subject) :
    (keeper.dropOthers subject others).Yields scene fun _ after =>
      ∃ left, Indexed folder place now left after ∧ Session.AreFiled left ∧
        ∀ session ∈ Session.listed now left, session.subject = subject := by
  -- `covered` is what the loop keeps: who is dropped leaves the index, and whoever else is still in
  -- it is among those that are left to drop.
  induction others generalizing entries scene with
  | nil => exact .pure ⟨entries, h, filed, fun session hs => (covered session hs).resolve_right (by simp)⟩
  | cons other rest ih =>
    rw [dropOthers]
    by_cases hs : other.subject = subject
    · rw [if_neg (not_not.mpr hs)]
      refine ih h filed fun session hm => ?_
      rcases covered session hm with hown | ⟨first, hf, same⟩
      · exact Or.inl hown
      · rcases List.mem_cons.mp hf with rfl | hf
        · exact Or.inl (same.symm.trans hs)
        · exact Or.inr ⟨first, hf, same⟩
    · rw [if_pos hs]
      refine .bind (P := fun _ after => Indexed folder place now entries after)
        (.lift (.of_exec rfl fun _ _ => ⟨h.machine.quiet (.of_passive (.log _ _ _) _), h.client⟩))
        fun _ between hb => ?_
      refine .bind (drop_indexed own hb other) fun _ later hl => ?_
      refine ih hl (filed.remove other.subject) fun session hm => ?_
      rw [Session.listed_remove filed, List.mem_filter] at hm
      have apart : session.subject ≠ other.subject := by simpa using hm.2
      rcases covered session hm.1 with hown | ⟨first, hf, same⟩
      · exact Or.inl hown
      · rcases List.mem_cons.mp hf with rfl | hf
        · exact absurd same.symm apart
        · exact Or.inr ⟨first, hf, same⟩

/-- What a secret of a session is kept under. -/
def serviceOf (keeper : Keeper) : Session → Text
  | .account _ => keeper.passphraseService
  | .worker _ => keeper.workerService

/-- That a session's secret is in the backend and, of a worker, its record among the workers. -/
structure Backs (keeper : Keeper) (place : Location) (holds : Machine → Secret.Ledger → Prop)
    (session : Session) (machine : Machine) : Prop where
  worker : ∀ s, session = .worker s →
    (Record.entriesAt machine place workersName).value? s.worker.id = some s.worker.publicRecord
  secret : ∃ ledger, holds machine ledger ∧
    ledger (keeper.serviceOf session) (syncAccount session) = session.secret?

/-- That a session is the only one of the index and all that belongs to it is stored. -/
structure HasStored (keeper : Keeper) (place : Location)
    (holds : Machine → Secret.Ledger → Prop) (session : Session) (machine : Machine) : Prop where
  filed : Session.AreFiled (Record.entriesAt machine place indexName)
  only : ∀ now, Session.listed now (Record.entriesAt machine place indexName) = [session.recalled]
  backed : keeper.Backs place holds session machine

theorem Backs.of_under (own : keeper.StoresIn folder place holds) {session : Session}
    {after : Machine} (h : keeper.Backs place holds session machine)
    (workers : after.under place workersName = machine.under place workersName)
    (vault : after.under place Secret.Vault.fileName = machine.under place Secret.Vault.fileName)
    (keychain : after.keychain = machine.keychain) : keeper.Backs place holds session after where
  worker s hs := by
    rw [Record.entriesAt_of_under workers]
    exact h.worker s hs
  secret := by
    obtain ⟨ledger, held, told⟩ := h.secret
    exact ⟨ledger, own.secrets.same held vault keychain, told⟩

theorem HasStored.of_under (own : keeper.StoresIn folder place holds) {session : Session}
    {after : Machine} (h : keeper.HasStored place holds session machine)
    (same : ∀ name ∈ ownNames, after.under place name = machine.under place name)
    (keychain : after.keychain = machine.keychain) :
    keeper.HasStored place holds session after := by
  have index := Record.entriesAt_of_under (same indexName (by decide))
  refine ⟨?_, ?_, h.backed.of_under own (same _ (by decide)) (same _ (by decide)) keychain⟩
  · rw [index]
    exact h.filed
  · rw [index]
    exact h.only

def storeBacking (keeper : Keeper) : Session → Action Unit
  | .worker s => do
    keeper.workers.put s.worker.id s.worker.publicRecord
    keeper.storeSecret keeper.workerService s.worker.id s.worker.secret
  | .account s => keeper.storeSecret keeper.passphraseService s.subject s.passphrase

theorem persist_eq (keeper : Keeper) (session : Session) : keeper.persist session =
    keeper.storeBacking session >>= fun _ =>
      keeper.index.put session.subject session.indexRecord := by
  unfold persist
  cases session with
  | worker s => exact (bind_assoc _ _ _).symm
  | account s => rfl

/-- A secret that was stored is in the backend, and the other files are as they were. -/
theorem storeSecret_yields (own : keeper.StoresIn folder place holds)
    (h : Indexes folder place now entries machine) {service account secret : Text}
    (joined : service.IsJoined ∧ account.IsJoined ∧ secret.IsJoined) (some_secret : secret ≠ []) :
    (keeper.storeSecret service account (some secret)).Yields machine fun _ after =>
      Indexes folder place now entries after ∧
        after.under place workersName = machine.under place workersName ∧
        ∃ ledger, holds after ledger ∧ ledger service account = some secret := by
  rw [storeSecret, if_neg (by simpa using some_secret)]
  intro _ after he
  have confined := own.secrets.put_confined service account secret
  have index := h.confined confined (not_isOwnName (by decide))
  have workers := (confined machine h.ground).under (not_isOwnName (by decide) :
    ¬ Secret.Vault.IsOwnName workersName)
  rw [he] at index workers
  exact ⟨index, workers, own.secrets.put_yields h.ground joined () after he⟩

theorem storeBacking_yields (own : keeper.StoresIn folder place holds)
    (h : Indexes folder place now entries machine) {session : Session} (joined : session.IsJoined)
    {secret : Text} (known : session.secret? = some secret) (some_secret : secret ≠ []) :
    (keeper.storeBacking session).Yields machine fun _ after =>
      Indexes folder place now entries after ∧ keeper.Backs place holds session after := by
  cases session with
  | worker s =>
    have same : s.worker.secret = some secret := known
    rw [storeBacking, own.workers, same]
    obtain ⟨-, -, hid, hname, hsecret⟩ := joined
    have hw : Tree.IsFileName workersName := ⟨by decide, by decide⟩
    have regular := (Worker.isRegular_publicRecord hid hname).roomy (by decide)
    refine .bind (Record.Store.put_yields h.ground hw hid regular)
      fun _ between wrote => ?_
    refine (storeSecret_yields own (h.wrote_other (by decide) wrote)
      ⟨own.isJoined_workerService, hid, hsecret secret same⟩ some_secret).mono
        fun _ after ⟨index, workers, ledger, held, told⟩ =>
          ⟨index, ?_, ledger, held, told.trans known.symm⟩
    rintro _ ⟨⟩
    rw [Record.entriesAt_of_under workers, wrote.entries, Assoc.value?_put_self]
  | account s =>
    have same : s.passphrase = some secret := known
    rw [storeBacking, same]
    exact (storeSecret_yields own h
      ⟨own.isJoined_passphraseService, joined.1, joined.2.2 secret same⟩ some_secret).mono fun _ after ⟨index, _, ledger, held, told⟩ =>
        ⟨index, nofun, ledger, held, told.trans known.symm⟩

/-- A session that was persisted has its record in the index, in the place of one of its subject or
behind the others, and the rest of it is stored. -/
theorem persist_puts (own : keeper.StoresIn folder place holds)
    (h : Indexes folder place now entries machine) {session : Session} (joined : session.IsJoined)
    {secret : Text} (known : session.secret? = some secret) (some_secret : secret ≠ []) :
    (keeper.persist session).Yields machine fun _ after =>
      Indexes folder place now (entries.put session.subject session.indexRecord) after ∧
        keeper.Backs place holds session after := by
  rw [persist_eq, own.index]
  refine .bind (storeBacking_yields own h joined known some_secret)
    fun _ between ⟨index, backed⟩ => ?_
  have regular := (Session.isRegular_indexRecord joined).roomy (by decide)
  refine (Record.Store.put_yields index.ground isFileName_indexName joined.subject regular).mono ?_
  intro _ after wrote
  rw [index.index] at wrote
  exact ⟨index.wrote wrote, backed.of_under own (wrote.only.under (by decide))
    (wrote.only.under (by decide)) wrote.keychain⟩

omit [Runtime] in
theorem subject_of_indexRecord {session : Session} (joined : session.IsJoined)
    (sound : session.IsSound) (time : Moment) (found : Session)
    (hf : Session.read time session.indexRecord = .ok found) : found.subject = session.subject := by
  rw [Session.read_indexRecord joined sound time] at hf
  rw [← Except.ok.inj hf, Session.subject_recalled, Text.rejoin_of_isJoined joined.subject]

theorem persist_yields (own : keeper.StoresIn folder place holds)
    (h : Indexes folder place now entries machine) (filed : Session.AreFiled entries)
    {session : Session} (joined : session.IsJoined) (sound : session.IsSound) {secret : Text}
    (known : session.secret? = some secret) (some_secret : secret ≠ [])
    (others : ∀ other ∈ Session.listed now entries, other.subject = session.subject) :
    (keeper.persist session).Yields machine fun _ after =>
      Ground after folder place ∧ keeper.HasStored place holds session after := by
  refine (persist_puts own h joined known some_secret).mono fun _ after ⟨index, backed⟩ => ?_
  have nodup := ((Json.isRegular_obj entries).mp h.isRegular).1
  refine ⟨index.ground, ?_, fun time => ?_, backed⟩
  · rw [index.index]
    exact filed.put nodup (subject_of_indexRecord joined sound)
  · rw [index.index]
    refine Session.listed_put nodup filed (fun found hf => ?_)
      (Session.read_indexRecord joined sound time)
    obtain ⟨other, ho, same⟩ := Session.exists_listed_later hf now
    exact same.symm.trans (others other ho)

/-- What stays when no file of the keeper's own is touched. -/
theorem HasStored.confined {α : Type} (own : keeper.StoresIn folder place holds) {session : Session}
    (g : Ground machine folder place) (h : keeper.HasStored place holds session machine)
    {action : Action α} (confined : action.Confined folder place (¬ IsReserved ·))
    (keychain : action.Keeps Machine.keychain) :
    keeper.HasStored place holds session (action.exec machine).2 :=
  h.of_under own (fun _ hn => (confined machine g).under (not_not.mpr (isReserved_of_mem hn)))
    (keychain machine)

theorem HasStored.current?_exec (own : keeper.StoresIn folder place holds) {session : Session}
    (g : Ground machine folder place) (h : keeper.HasStored place holds session machine) :
    ∃ after, keeper.current?.exec machine = (.ok (some session.recalled), after) ∧
      machine.Quiet after := by
  have some_left : Record.entriesAt machine place indexName ≠ [] := by
    intro none_left
    have only := h.only machine.now
    rw [none_left] at only
    nomatch only
  have entries := Record.Store.entries_exec g isFileName_indexName (Record.holds_entriesAt some_left)
  rw [← own.index] at entries
  obtain ⟨after, current, quiet⟩ := current?_of_entries entries
  rw [h.only machine.now] at current
  exact ⟨after, current, quiet⟩

/-- That a session is as it is told by its stored record, apart from its secret: its texts are
joined, those of a worker are trimmed, and its time is one that stored text tells. -/
structure IsLasting (session : Session) : Prop where
  joined : session.IsJoined
  sound : session.IsSound
  worker : ∀ s, session = .worker s →
    s.worker.id.trim = s.worker.id ∧ s.worker.name.trim = s.worker.name ∧
      s.worker.created.stored = s.worker.created

/-- A worker that is registered as it is comes back from its record. -/
theorem registered_exec (own : keeper.StoresIn folder place holds) (g : Ground machine folder place)
    {worker : Worker} (joined : worker.id.IsJoined ∧ worker.name.IsJoined) (sound : worker.IsSound)
    (told : worker.recalled = { worker with secret := none })
    (there : (Record.entriesAt machine place workersName).value? worker.id =
      some worker.publicRecord) :
    (keeper.registered worker.recalled).exec machine = (.ok worker.recalled, machine) := by
  have some_left : Record.entriesAt machine place workersName ≠ [] := by
    intro none_left
    rw [none_left] at there
    nomatch there
  have found := Record.Store.get?_exec g ⟨by decide, by decide⟩ (Record.holds_entriesAt some_left)
    worker.recalled.id
  rw [show worker.recalled.id = worker.id by rw [told], there, ← own.workers] at found
  have read := Worker.read_publicRecord joined.1 joined.2 sound machine.now
  unfold registered
  rw [show worker.recalled.id = worker.id by rw [told]]
  refine (Action.exec_bind_ok found).trans ((Action.exec_bind_ok (Action.exec_now machine)).trans ?_)
  simp only [read]
  rfl

omit [Runtime] in
theorem noted_exec (secret : Option Text) (session : Session) (machine : Machine) :
    ∃ after, (do
      if secret.isNone then Action.log .warning .session "Worker secret is missing"
      return session : Action Session).exec machine = (.ok session, after) ∧ machine.Quiet after := by
  cases secret with
  | none => exact ⟨_, rfl, .of_passive (.log _ _ _) machine⟩
  | some secret => exact ⟨machine, rfl, .refl machine⟩

theorem hydrate_exec (own : keeper.StoresIn folder place holds) (g : Ground machine folder place)
    {session : Session} (backed : keeper.Backs place holds session machine)
    (lasting : IsLasting session) :
    ∃ after, (keeper.hydrate session.recalled).exec machine = (.ok session, after) ∧
      machine.Quiet after := by
  obtain ⟨ledger, held, told⟩ := backed.secret
  cases session with
  | account s =>
    have same : (Session.account s).recalled = .account ⟨s.subject, s.handle, none⟩ := by
      rw [Session.recalled, Text.rejoin_of_isJoined lasting.joined.1,
        Text.rejoin_of_isJoined lasting.joined.2.1]
    obtain ⟨after, he, quiet⟩ := own.secrets.get? g held keeper.passphraseService s.subject
    rw [show ledger keeper.passphraseService s.subject = s.passphrase from told] at he
    rw [same]
    exact ⟨after, (Action.exec_bind_ok he).trans rfl, quiet⟩
  | worker s =>
    obtain ⟨hsubject, hhandle, hid, hname, -⟩ := lasting.joined
    obtain ⟨tid, tname, tcreated⟩ := lasting.worker s rfl
    have recalled : s.worker.recalled = { s.worker with secret := none } := by
      rw [Worker.recalled, Text.rejoin_of_isJoined hid, Text.rejoin_of_isJoined hname, tid, tname,
        tcreated]
    have same : (Session.worker s).recalled = .worker ⟨s.subject, s.handle, s.worker.recalled⟩ := by
      rw [Session.recalled, Text.rejoin_of_isJoined hsubject, Text.rejoin_of_isJoined hhandle]
    have registered := registered_exec own g ⟨hid, hname⟩ lasting.sound recalled
      (backed.worker s rfl)
    have hsecret : ledger keeper.workerService s.worker.recalled.id = s.worker.secret := by
      rw [recalled]
      exact told
    obtain ⟨between, he, quiet⟩ :=
      own.secrets.get? g held keeper.workerService s.worker.recalled.id
    rw [hsecret] at he
    obtain ⟨after, hn, more⟩ := noted_exec s.worker.secret
      (.worker ⟨s.subject, s.handle, { s.worker.recalled with secret := s.worker.secret }⟩) between
    refine ⟨after, ?_, quiet.trans more⟩
    rw [same]
    refine ((Action.exec_bind_ok registered).trans ((Action.exec_bind_ok he).trans hn)).trans ?_
    rw [recalled]

theorem HasStored.load_exec (own : keeper.StoresIn folder place holds) {session : Session}
    (g : Ground machine folder place) (h : keeper.HasStored place holds session machine)
    (lasting : IsLasting session) :
    ∃ after, keeper.load.exec machine = (.ok (some session), after) ∧ machine.Quiet after := by
  obtain ⟨between, found, quiet⟩ := h.current?_exec own g
  have backed := h.backed.of_under own (quiet.under _ _) (quiet.under _ _) quiet.keychain
  obtain ⟨after, he, more⟩ := hydrate_exec own (g.of_quiet quiet) backed lasting
  refine ⟨after, (Action.exec_bind_ok found).trans ((Action.exec_bind_ok he).trans rfl), ?_⟩
  exact quiet.trans more

theorem hydrate_subject (keeper : Keeper) (session : Session) (machine : Machine) :
    (keeper.hydrate session).Yields machine fun found _ => found.subject = session.subject := by
  have anything {α : Type} (action : Action α) (before : Machine) :
      action.Yields before fun _ _ => True := .of_exec rfl fun _ _ => trivial
  unfold hydrate
  cases session with
  | account s => exact .bind (anything _ _) fun _ _ _ => .pure rfl
  | worker s =>
    refine .bind (anything _ _) fun _ _ _ => .bind (anything _ _) fun secret _ _ => ?_
    dsimp only
    split_ifs
    · exact .bind (anything _ _) fun _ _ _ => .pure rfl
    · exact .pure rfl

structure SharesWith (other keeper : Keeper) : Prop where
  index : other.index = keeper.index
  workers : other.workers = keeper.workers
  secrets : other.secrets = keeper.secrets
  service : other.secretService = keeper.secretService

theorem SharesWith.load_eq {other : Keeper} (h : other.SharesWith keeper) :
    other.load = keeper.load := by
  obtain ⟨index, workers, secrets, service⟩ := h
  cases keeper
  cases other
  subst index workers secrets service
  rfl

end Keeper

end SessionKeeper
