import SessionKeeper.Proofs.Keeper.Parts

/-!
# States that keepers reach

Any number of keepers may work on one folder, one after the other, each with a client of its own
and with any change of sessions. As long as the clients stay away from the keepers' files, these
files stay in order, whatever fails: every session of the index is filed under its own subject,
and the backend has a ledger of secrets.
-/
namespace SessionKeeper

/-- That a backend stays in order also where texts are not joined. -/
structure Secret.Backend.IsSteady (folder : Path) (place : Location) (secrets : Backend)
    (holds : Machine → Ledger → Prop) : Prop extends secrets.Keeps folder place holds where
  puts {machine : Machine} {ledger : Ledger} (g : Ground machine folder place)
    (w : Record.Writable machine place Vault.fileName) (h : holds machine ledger)
    {service : Text} (joined : service.IsJoined) (account secret : Text) :
    ∃ after left, (secrets.put service account secret).exec machine = (.ok (), after) ∧
      Stirred place machine after ∧ holds after left

variable [Runtime]

theorem Secret.Vault.isSteady (folder : Path) (place : Location) :
    (Backend.ofVault (.inFolder folder)).IsSteady folder place (HoldsLedger place) where
  toKeeps := keeps folder place
  puts g w h service joined account secret := by
    obtain ⟨entries, holds, -⟩ := h
    obtain ⟨after, he, touched, written⟩ := put_of_holds g w holds joined account secret
    exact ⟨after, _, he, .of_touched touched, _, written, rfl⟩

omit [Runtime] in
theorem Secret.Backend.platform_isSteady (folder : Path) (place : Location) :
    platform.IsSteady folder place HoldsLedger where
  toKeeps := platform_keeps folder place
  puts _ w h service _ account secret :=
    ⟨_, _, rfl, .of_tree w rfl, fun s a => value?_put _ h service account secret s a⟩

namespace Keeper

/-- That a keeper has its files in a folder, and a backend that stays in order. -/
structure Tends (keeper : Keeper) (folder : Path) (place : Location)
    (holds : Machine → Secret.Ledger → Prop) : Prop extends keeper.LiesIn folder where
  service : keeper.secretService.IsJoined
  steady : keeper.secrets.IsSteady folder place holds

/-- That the files of keepers are in order. -/
structure Tended (folder : Path) (place : Location) (holds : Machine → Secret.Ledger → Prop)
    (machine : Machine) : Prop where
  orderly : Orderly folder place machine
  index : ∃ entries, Record.Holds machine place indexName entries ∧ Session.AreFiled entries
  secrets : ∃ ledger, holds machine ledger

variable {keeper : Keeper} {folder : Path} {place : Location} {machine after : Machine}
  {holds : Machine → Secret.Ledger → Prop} {scene : Scene}

namespace Tended

theorem ground (h : Tended folder place holds machine) : Ground machine folder place :=
  h.orderly.ground

/-- What touches no reserved name leaves the files in order. -/
theorem elsewhere (tends : keeper.Tends folder place holds) (h : Tended folder place holds machine)
    (ground : Ground after folder place) (only : ChangedOnly place (¬ IsReserved ·) machine after)
    (keychain : after.keychain = machine.keychain) : Tended folder place holds after where
  orderly := h.orderly.of_changedOnly ground only
  index := by
    obtain ⟨entries, held, filed⟩ := h.index
    exact ⟨entries, held.of_under (only.under (not_not.mpr (isReserved_of_mem (by decide)))), filed⟩
  secrets := by
    obtain ⟨ledger, held⟩ := h.secrets
    exact ⟨ledger, tends.steady.same held
      (only.under (not_not.mpr (isReserved_of_mem (by decide)))) keychain⟩

theorem respects {α : Type} {action : Action α} (tends : keeper.Tends folder place holds)
    (h : Tended folder place holds machine) (respects : action.Respects folder place) :
    Tended folder place holds (action.exec machine).2 := by
  have only := respects.confined machine h.ground
  exact h.elsewhere tends (h.ground.exec rfl only)
    (only.mono fun name hn reserved => hn (.inl reserved)) (respects.keychain machine h.ground)

theorem quiet (tends : keeper.Tends folder place holds) (h : Tended folder place holds machine)
    (quiet : machine.Quiet after) : Tended folder place holds after :=
  h.elsewhere tends (h.ground.of_quiet quiet) (.of_tree quiet.tree) quiet.keychain

theorem later (h : Tended folder place holds machine) (tends : keeper.Tends folder place holds)
    (now : Moment) : Tended folder place holds { machine with now } where
  orderly := ⟨⟨h.ground.leads, h.ground.stands, h.ground.numbered⟩,
    fun own ho => ⟨(h.orderly.writable own ho).free, (h.orderly.writable own ho).plain⟩⟩
  index := h.index
  secrets := by
    obtain ⟨ledger, held⟩ := h.secrets
    exact ⟨ledger, tends.steady.same held rfl rfl⟩

theorem index_touched (tends : keeper.Tends folder place holds)
    (h : Tended folder place holds machine) (ground : Ground after folder place)
    (touched : Record.Touched place indexName machine after) {entries : Assoc Text Json}
    (held : Record.Holds after place indexName entries) (filed : Session.AreFiled entries) :
    Tended folder place holds after where
  orderly := h.orderly.of_touched ground (by decide) touched
  index := ⟨entries, held, filed⟩
  secrets := by
    obtain ⟨ledger, kept⟩ := h.secrets
    exact ⟨ledger, tends.steady.same kept (touched.only.under (by decide)) touched.keychain⟩

theorem workers_touched (tends : keeper.Tends folder place holds)
    (h : Tended folder place holds machine) (ground : Ground after folder place)
    (touched : Record.Touched place workersName machine after) :
    Tended folder place holds after where
  orderly := h.orderly.of_touched ground (by decide) touched
  index := by
    obtain ⟨entries, held, filed⟩ := h.index
    exact ⟨entries, held.of_under (touched.only.under (by decide)), filed⟩
  secrets := by
    obtain ⟨ledger, kept⟩ := h.secrets
    exact ⟨ledger, tends.steady.same kept (touched.only.under (by decide)) touched.keychain⟩

theorem secrets_stirred (h : Tended folder place holds machine) (ground : Ground after folder place)
    (stirred : Secret.Stirred place machine after) {ledger : Secret.Ledger}
    (held : holds after ledger) : Tended folder place holds after where
  orderly := h.orderly.of_written ground (by decide) stirred.only stirred.writable
  index := by
    obtain ⟨entries, held, filed⟩ := h.index
    exact ⟨entries, held.of_under (stirred.only.under (by decide)), filed⟩
  secrets := ⟨ledger, held⟩

end Tended

omit [Runtime] in
theorem Tends.isJoined_workerService (tends : keeper.Tends folder place holds) :
    keeper.workerService.IsJoined := Text.isJoined_append_ofChars tends.service "-worker".toList

omit [Runtime] in
theorem Tends.isJoined_passphraseService (tends : keeper.Tends folder place holds) :
    keeper.passphraseService.IsJoined :=
  Text.isJoined_append_ofChars tends.service "-passphrase".toList

theorem index_put_tended (tends : keeper.Tends folder place holds)
    (h : Tended folder place holds machine) (session : Session) :
    ∃ after, (keeper.index.put session.subject session.indexRecord).exec machine = (.ok (), after) ∧
      Tended folder place holds after := by
  obtain ⟨entries, held, filed⟩ := h.index
  have printable : session.indexRecord.fits 2 = true := by cases session <;> rfl
  obtain ⟨after, he, touched, stored⟩ := Record.Store.put_of_holds h.ground
    (isRecordName_of_mem indexName (by decide)) (h.orderly.writable _ (by decide)) held
    session.subject (Json.fits_roomy printable (by decide)) session.isCanonical_indexRecord
  rw [← tends.index] at he
  refine ⟨after, he, h.index_touched tends (h.ground.exec he touched.only) touched stored ?_⟩
  refine filed.put ((Json.isRegular_obj entries).mp held.isRegular).1 fun now other hr => ?_
  have named := Session.member?_of_read hr
  rw [session.member?_reread] at named
  exact (Json.str.inj (Option.some.inj named)).symm

theorem index_remove_tended (tends : keeper.Tends folder place holds)
    (h : Tended folder place holds machine) (subject : Text) :
    ∃ after, (keeper.index.remove subject).exec machine = (.ok (), after) ∧
      Tended folder place holds after ∧ Record.Touched place indexName machine after ∧
      Record.entriesAt after place indexName =
        (Record.entriesAt machine place indexName).remove subject := by
  obtain ⟨entries, held, filed⟩ := h.index
  obtain ⟨after, he, touched, left⟩ := Record.Store.remove_of_holds h.ground
    (isRecordName_of_mem indexName (by decide)) (h.orderly.writable _ (by decide)) held subject
  rw [← tends.index] at he
  refine ⟨after, he, h.index_touched tends (h.ground.exec he touched.only) touched left
    (filed.remove subject), touched, ?_⟩
  rw [left.entriesAt_eq, held.entriesAt_eq]

/-- Forgetting a secret leaves the others. -/
theorem secrets_remove_tended (tends : keeper.Tends folder place holds)
    (h : Tended folder place holds machine) (service account : Text) :
    ∃ after ledger, (keeper.secrets.remove service account).exec machine = (.ok (), after) ∧
      Tended folder place holds after ∧ Secret.Stirred place machine after ∧
      holds machine ledger ∧ holds after (ledger.remove service account) := by
  obtain ⟨ledger, held⟩ := h.secrets
  obtain ⟨after, he, stirred, left⟩ := tends.steady.remove h.ground
    (h.orderly.writable _ (by decide)) held service account
  exact ⟨after, ledger, he, h.secrets_stirred (h.ground.exec he stirred.only) stirred left, stirred,
    held, left⟩

theorem secrets_put_tended (tends : keeper.Tends folder place holds)
    (h : Tended folder place holds machine) {service : Text} (joined : service.IsJoined)
    (account secret : Text) : (keeper.secrets.put service account secret).Ends machine
      fun _ after => Tended folder place holds after := by
  obtain ⟨ledger, held⟩ := h.secrets
  obtain ⟨after, left, he, stirred, put⟩ := tends.steady.puts h.ground
    (h.orderly.writable _ (by decide)) held joined account secret
  exact .of_exec he (h.secrets_stirred (h.ground.exec he stirred.only) stirred put)

theorem secrets_get?_tended (tends : keeper.Tends folder place holds)
    (h : Tended folder place holds machine) (service account : Text) :
    (keeper.secrets.get? service account).Ends machine fun _ after =>
      Tended folder place holds after := by
  obtain ⟨ledger, held⟩ := h.secrets
  obtain ⟨after, he, quiet⟩ := tends.steady.get? h.ground held service account
  exact .of_exec he (h.quiet tends quiet)

theorem workers_put_tended (tends : keeper.Tends folder place holds)
    (h : Tended folder place holds machine) (key : Text) (value : Json) :
    (keeper.workers.put key value).Ends machine fun _ after => Tended folder place holds after := by
  have touched := Record.Store.put_touched h.ground (isRecordName_of_mem workersName (by decide))
    (h.orderly.writable _ (by decide)) key value
  rw [tends.workers]
  exact h.workers_touched tends (h.ground.exec rfl touched.only) touched

theorem workers_remove_tended (tends : keeper.Tends folder place holds)
    (h : Tended folder place holds machine) (key : Text) :
    (keeper.workers.remove key).Ends machine fun _ after => Tended folder place holds after := by
  have touched := Record.Store.remove_touched h.ground (isRecordName_of_mem workersName (by decide))
    (h.orderly.writable _ (by decide)) key
  rw [tends.workers]
  exact h.workers_touched tends (h.ground.exec rfl touched.only) touched

/-- A scene whose files are in order, with a client that stays away from them. -/
abbrev Minded (folder : Path) (place : Location) (holds : Machine → Secret.Ledger → Prop) :
    Scene → Prop :=
  Attended (Tended folder place holds) (·.KeepsAway folder)

/-- Every single write leaves the files in order. -/
theorem Tends.sustains (tends : keeper.Tends folder place holds) :
    keeper.Sustains (Tended folder place holds) (·.KeepsAway folder) where
  quiet _ _ h quiet := h.quiet tends quiet
  makes machine h := ⟨h.respects tends (tends.clients.makes place), tends.toLiesIn.made machine⟩
  authorizes _ away handle _ h := h.respects tends (away.authorize place handle)
  revokes _ away subject _ h := h.respects tends (away.revoke place subject)
  enters session _ h := by
    obtain ⟨after, he, ha⟩ := index_put_tended tends h session
    exact Action.Ends.of_exec (P := fun _ => Tended folder place holds) he ha
  strikes subject _ h := by
    obtain ⟨after, he, ha, -⟩ := index_remove_tended tends h subject
    exact Action.Ends.of_exec (P := fun _ => Tended folder place holds) he ha
  registers worker _ h := workers_put_tended tends h _ _
  dismisses id _ h := workers_remove_tended tends h id
  discards subject _ h := by
    rw [tends.tokens]
    exact h.respects tends (tokens_remove_respects subject)
  looks service account _ h := secrets_get?_tended tends h service account
  stores service own account secret _ h := by
    refine secrets_put_tended tends h ?_ account secret
    rcases List.mem_pair.mp own with rfl | rfl
    · exact tends.isJoined_workerService
    · exact tends.isJoined_passphraseService
  forgets service account _ h := by
    obtain ⟨after, -, he, ha, -⟩ := secrets_remove_tended tends h service account
    exact Action.Ends.of_exec (P := fun _ => Tended folder place holds) he ha

/-- What is done to the marker of the session lock leaves the files in order. -/
theorem Tended.marked (tends : keeper.Tends folder place holds)
    (h : Tended folder place holds machine) (ground : Ground after folder place)
    (only : ChangedOnly place (· = markName) machine after)
    (keychain : after.keychain = machine.keychain) : Tended folder place holds after :=
  h.elsewhere tends ground (only.mono fun _ hn => hn ▸ not_isReserved_marker.2) keychain

theorem acquire_tended (tends : keeper.Tends folder place holds)
    (h : Tended folder place holds machine) : (keeper.lock.acquire lockKey).Ends machine
      fun _ after => Tended folder place holds after := by
  have only := Lock.acquire_confined tends.lock fileName?_lockKey not_isReserved_marker.1 machine
    h.ground
  exact h.marked tends (h.ground.exec rfl only) only (Lock.acquire_keychain _ _ machine)

theorem release_tended (tends : keeper.Tends folder place holds)
    (h : Tended folder place holds machine) {marker : Lock.Marker} (key : marker.key = lockKey) :
    (keeper.lock.release marker).Ends machine fun _ after => Tended folder place holds after := by
  have only := Lock.release_confined tends.lock (key ▸ fileName?_lockKey) not_isReserved_marker.1
    machine h.ground
  exact h.marked tends (h.ground.exec rfl only) only (Lock.release_keychain _ _ machine)

/-- Every change leaves the files in order, whatever fails. -/
theorem change_tended (tends : keeper.Tends folder place holds)
    (h : Minded folder place holds scene) (c : Change) :
    (keeper.change c).Ends scene fun _ after => Minded folder place holds after :=
  tends.sustains.change (T := fun marker => marker.key = lockKey)
    (fun _ hm => ⟨acquire_tended tends hm, fun _ ho =>
      Lock.key_of_acquire tends.lock fileName?_lockKey (Prod.ext ho rfl)⟩)
    (fun _ _ key hm => release_tended tends hm key) h c

/-- What keepers that share their files do to a machine, one after the other. Each may have a
client of its own, and between their changes whatever touches nothing of theirs may happen. -/
inductive Reached (keeper : Keeper) (folder : Path) (place : Location) (start : Machine) :
    Machine → Prop where
  | start : Reached keeper folder place start start
  | change {machine : Machine} {other : Keeper} (shares : other.SharesWith keeper)
      (lies : other.LiesIn folder) {client : Option OAuth.Client}
      (present : ∀ c, client = some c → c.KeepsAway folder) (c : Change)
      (before : Reached keeper folder place start machine) :
      Reached keeper folder place start ((other.change c).exec client machine).2.2
  | act {machine : Machine} {α : Type} {action : Action α} (respects : action.Respects folder place)
      (before : Reached keeper folder place start machine) :
      Reached keeper folder place start (action.exec machine).2
  | wait {machine : Machine} (now : Moment) (before : Reached keeper folder place start machine) :
      Reached keeper folder place start { machine with now }

/-- The files are in order in every state that is reached from one where they are. -/
theorem tended_of_reached (tends : keeper.Tends folder place holds) {start : Machine}
    (fresh : Tended folder place holds start)
    (reached : Reached keeper folder place start machine) : Tended folder place holds machine := by
  induction reached with
  | start => exact fresh
  | @change machine other shares lies client present c before ih =>
    have tends : other.Tends folder place holds :=
      ⟨lies, shares.service ▸ tends.service, shares.secrets ▸ tends.steady⟩
    have minded : Minded folder place holds ⟨client, machine⟩ := ⟨ih, present⟩
    exact (change_tended tends minded c).machine
  | act respects before ih => exact ih.respects tends respects
  | wait now before ih => exact ih.later tends now

theorem Tended.of_empty (ground : Ground machine folder place)
    (empty : ∀ name, machine.under place name = none) (blank : holds machine .empty) :
    Tended folder place holds machine where
  orderly := .of_empty ground empty
  index := ⟨[], .inl ⟨rfl, empty indexName⟩, List.forall_mem_nil _⟩
  secrets := ⟨_, blank⟩

/-- A keeper that was made for an empty folder minds its files, and they are in order in every state
that is reached from there. -/
theorem tended_of_made {options : Options} {origin start : Machine}
    (made : (make folder options).exec origin = (.ok keeper, start))
    (ground : Ground origin folder place) (empty : ∀ name, origin.under place name = none)
    (service : options.secretService.IsJoined)
    (away : (options.secrets.getD (.ofVault (.inFolder folder))).KeepsAway folder)
    (steady : (options.secrets.getD (.ofVault (.inFolder folder))).IsSteady folder place holds)
    (blank : holds origin .empty) (clients : options.factory.KeepsAway keeper.stores folder)
    (reached : Reached keeper folder place start machine) :
    keeper.Tends folder place holds ∧ Tended folder place holds machine := by
  obtain ⟨own, same⟩ := madeIn_of_make made
  have tends : keeper.Tends folder place holds := {
    index := own.index
    workers := own.workers
    tokens := own.tokens
    lock := own.lock
    secrets := own.secrets ▸ away
    clients := own.factory ▸ clients
    service := own.service ▸ service
    steady := own.secrets ▸ steady }
  have only : ChangedOnly place (fun _ => False) origin start := changedOnly_of_make made
  have none_there (name : String) : start.under place name = none :=
    (only.under not_false).trans (empty name)
  have still : holds start .empty :=
    tends.steady.same blank (only.under not_false) (congrArg Prod.snd same)
  exact ⟨tends, tended_of_reached tends (.of_empty (ground.exec made only) none_there still) reached⟩

end Keeper

end SessionKeeper
