import SessionKeeper.Proofs.Keeper.LoggedOut
import SessionKeeper.Proofs.Keeper.Refusal
import SessionKeeper.Proofs.Session.Decoded

/-!
# What saving a session leaves

Logging in and registering drop the sessions of other subjects before they persist their own;
saving only persists. So the session that was saved is in the index and all of it is stored, but
the sessions of other subjects stay, and it takes the place of an older record of its subject or
comes last. It is the one that is loaded just when it comes first, and it is the only one just
when no other subject had a session before.
-/
namespace SessionKeeper.Keeper

variable {keeper : Keeper} {folder : Path} {place : Location} {machine before after : Machine}
  {holds : Machine → Secret.Ledger → Prop} {now : Moment} {entries : Assoc Text Json}

/-- Whoever stays away from the keepers' files keeps apart from them. -/
theorem Tends.storesIn (tends : keeper.Tends folder place holds) :
    keeper.StoresIn folder place holds where
  index := tends.index
  workers := tends.workers
  tokens := tends.tokens
  lock := tends.lock
  service := tends.service
  secrets := tends.steady.toKeeps
  clients := {
    makes := (tends.clients.makes place).confined.mono fun _ hn reserved => hn (.inl reserved)
    made := fun machine client after _ he =>
      have away := tends.clients.made machine client after he
      { authorize := fun handle => (away.authorize place handle).confined.mono
          fun _ hn reserved => hn (.inl reserved)
        revoke := fun subject => (away.revoke place subject).confined.mono
          fun _ hn reserved => hn (.inl reserved) } }

/-- A lasting session is told by its record but for the secret. -/
theorem IsLasting.recalled_eq {session : Session} (lasting : IsLasting session) :
    session.recalled = session.withoutSecret := by
  cases session with
  | account s =>
    rw [Session.recalled, Text.rejoin_of_isJoined lasting.joined.1,
      Text.rejoin_of_isJoined lasting.joined.2.1]
    rfl
  | worker s =>
    obtain ⟨hsubject, hhandle, hid, hname, -⟩ := lasting.joined
    obtain ⟨tid, tname, tcreated⟩ := lasting.worker s rfl
    rw [Session.recalled, Text.rejoin_of_isJoined hsubject, Text.rejoin_of_isJoined hhandle,
      Worker.recalled, Text.rejoin_of_isJoined hid, Text.rejoin_of_isJoined hname, tid, tname,
      tcreated]
    rfl

section

variable [Runtime]

/-- Saving puts the record of the session into the index as it is once the lock is held, and
stores the rest. -/
theorem save_yields (own : keeper.StoresIn folder place holds) {scene : Scene}
    (h : Foresees folder place now entries scene.machine) {session : Session}
    (joined : session.IsJoined) {secret : Text} (known : session.secret? = some secret)
    (some_secret : secret ≠ []) : (keeper.save session).Yields scene fun _ after =>
      Indexes folder place now (entries.put session.subject session.indexRecord) after.machine ∧
        keeper.Backs place holds session after.machine := by
  refine .holding (acquire_indexes own h) fun marker between ⟨index, key⟩ => .lift ?_
  refine (persist_puts own index joined known some_secret).mono fun _ last ⟨wrote, backed⟩ => ?_
  have confined : (keeper.lock.release marker).Confined folder place (· = markName) :=
    Lock.release_confined own.lock (key ▸ fileName?_lockKey) not_isReserved_marker.1
  have only := confined last wrote.ground
  exact .of_exec rfl fun _ _ => ⟨wrote.confined confined (by decide), backed.of_under own
    (only.under (by decide)) (only.under (by decide)) (Lock.release_keychain _ _ last)⟩

def sessionsOn (place : Location) (machine : Machine) : List Session :=
  Session.listed machine.now (Record.entriesAt machine place indexName)

def Loads (keeper : Keeper) (session : Session) (machine : Machine) : Prop :=
  ∃ last, keeper.load.exec machine = (.ok (some session), last)

/-- The first session of the index is loaded, with its secret and all if it is a lasting one that
is stored. -/
theorem load_of_first (own : keeper.StoresIn folder place holds)
    (h : Indexes folder place now entries machine) {first : Session}
    (leads : (Session.listed now entries).head? = some first) :
    (keeper.load.Yields machine fun found _ => ∃ loaded, found = some loaded ∧
      loaded.subject = first.subject) ∧
    ∀ session, keeper.Backs place holds session machine → IsLasting session →
      first = session.recalled → keeper.Loads session machine := by
  have some_left : Record.entriesAt machine place indexName ≠ [] := by
    rw [h.index]
    rintro rfl
    cases leads
  have found := Record.Store.entries_exec h.ground isFileName_indexName
    (Record.holds_entriesAt some_left)
  rw [← own.index, h.index] at found
  obtain ⟨between, current, quiet⟩ := current?_of_entries found
  rw [h.now, leads] at current
  have load_eq : keeper.load.exec machine =
      (do return some (← keeper.hydrate first) : Action (Option Session)).exec between :=
    Action.exec_bind_ok current
  constructor
  · have loads : (do return some (← keeper.hydrate first) : Action (Option Session)).Yields between
        fun found _ => ∃ loaded, found = some loaded ∧ loaded.subject = first.subject :=
      .bind (hydrate_subject keeper first between) fun hydrated _ same => .pure ⟨hydrated, rfl, same⟩
    intro found after he
    rw [load_eq] at he
    exact loads found after he
  · rintro session backed lasting rfl
    obtain ⟨after, hydrated, -⟩ := hydrate_exec own (h.ground.of_quiet quiet)
      (backed.of_under own (quiet.under _ _) (quiet.under _ _) quiet.keychain) lasting
    exact ⟨after, load_eq.trans (Action.exec_bind_ok hydrated)⟩

theorem loads_iff (own : keeper.StoresIn folder place holds)
    (h : Indexes folder place now entries machine) {session : Session}
    (backed : keeper.Backs place holds session machine) (lasting : IsLasting session)
    (mem : session.recalled ∈ Session.listed now entries)
    (unique : ∀ other ∈ Session.listed now entries, other.subject = session.subject →
      other = session.recalled) :
    keeper.Loads session machine ↔
      (Session.listed now entries).head? = some session.recalled := by
  constructor
  · rintro ⟨last, he⟩
    cases leads : (Session.listed now entries).head? with
    | none =>
      rw [List.head?_eq_none_iff.mp leads] at mem
      cases mem
    | some first =>
      obtain ⟨_, ⟨⟩, same⟩ := (load_of_first own h leads).1 _ _ he
      rw [unique first (List.mem_of_mem_head? leads) same.symm]
  · intro leads
    exact (load_of_first own h leads).2 session backed lasting rfl

/-- In every state that keepers of one folder reach from an empty one: a saving that returns has
put the record of its session into the index and has left all other entries, and with them the
sessions of other subjects, in their order. The session is loaded as it was, with its secret,
exactly when it is the first one of the index; and it is that, and the only session of the index,
exactly when no other subject had a session before. -/
theorem saved_session_is_kept {options : Options} {origin start : Machine}
    (made : (make folder options).exec origin = (.ok keeper, start))
    (ground : Ground origin folder place) (empty : ∀ name, origin.under place name = none)
    (service : options.secretService.IsJoined)
    (away : (options.secrets.getD (.ofVault (.inFolder folder))).KeepsAway folder)
    (steady : (options.secrets.getD (.ofVault (.inFolder folder))).IsSteady folder place holds)
    (blank : holds origin .empty) (clients : options.factory.KeepsAway keeper.stores folder)
    (reached : Reached keeper folder place start before) {session : Session}
    (lasting : IsLasting session) {secret : Text} (known : session.secret? = some secret)
    (some_secret : secret ≠ []) {client later : Option OAuth.Client}
    (saved : (keeper.save session).exec client before = (.ok (), later, after)) :
    Record.entriesAt after place indexName =
      (Record.entriesAt before place indexName).put session.subject session.indexRecord ∧
    (sessionsOn place after).filter (·.subject ≠ session.subject) =
      (sessionsOn place before).filter (·.subject ≠ session.subject) ∧
    session.withoutSecret ∈ sessionsOn place after ∧
    (∀ other ∈ sessionsOn place after, other.subject = session.subject →
      other = session.withoutSecret) ∧
    (keeper.Loads session after ↔ (sessionsOn place after).head? = some session.withoutSecret) ∧
    (keeper.Loads session after ∧ sessionsOn place after = [session.withoutSecret] ↔
      ∀ other ∈ sessionsOn place before, other.subject = session.subject) := by
  obtain ⟨tends, tended⟩ :=
    tended_of_made made ground empty service away steady blank clients reached
  obtain ⟨found, held, filed⟩ := tended.index
  rw [← held.entriesAt_eq] at filed
  have aim (tree : Tree) (l : Location) (hl : tree.locate before.directory folder = .ok l) :
      l = place := Tree.walk_unique hl tended.ground.leads
  have foreseen : Foresees folder place before.now (Record.entriesAt before place indexName)
      before := ⟨tended.ground.numbered, aim, rfl, rfl⟩
  have saves : (keeper.save session).Yields ⟨client, before⟩ _ :=
    save_yields tends.storesIn foreseen lasting.joined known some_secret
  obtain ⟨index, backed⟩ : Indexes folder place before.now _ after ∧
      keeper.Backs place holds session after := saves () later after saved
  have nodup := ((Json.isRegular_obj _).mp (Record.isRegular_entriesAt before place indexName)).1
  have own := subject_of_indexRecord lasting.joined lasting.sound
  have read := Session.read_indexRecord lasting.joined lasting.sound before.now
  obtain ⟨mem, unique⟩ := Session.mem_listed_put nodup filed own read
  have others := Session.listed_put_others nodup filed before.now own
  have alone := Session.listed_put_eq_singleton nodup filed own read
  have loads := loads_iff tends.storesIn index backed lasting mem unique
  rw [← index.index] at mem unique others alone loads
  rw [sessionsOn, sessionsOn, index.now, ← lasting.recalled_eq]
  refine ⟨index.index, others, mem, unique, loads, fun h => alone.mp h.2, fun same => ?_⟩
  have only := alone.mpr same
  exact ⟨loads.mpr (by rw [only]; rfl), only⟩

theorem plainFactory_keepsAway {stores : OAuth.Stores}
    (tokens : stores.sessions = ⟨folder.child tokensName⟩) :
    plainFactory.KeepsAway stores folder := by
  refine ⟨fun _ => .pure _, fun machine client after h => ?_⟩
  obtain ⟨⟩ := h
  refine ⟨fun place handle => ?_, fun place subject => ?_⟩ <;> rw [tokens]
  · exact (tokens_put_respects handle _).bind fun _ => .pure _
  · exact tokens_remove_respects subject

end

open scoped SessionKeeper.Runtime

/-- What is loaded after two sessions were saved in the empty folder, and what the index has. -/
def twiceSaved (first second : Session) : Option (Option Session × List Session) :=
  ((do
    plainKeeper.save first
    plainKeeper.save second
    let loaded ← plainKeeper.load
    let sessions ← plainKeeper.indexed
    return (loaded, sessions) : SessionAction (Option Session × List Session)).exec none
      plainMade.2).1.toOption

/-- A session that is saved next to that of another subject is not loaded, and the other one stays
in the index. -/
theorem second_saved_is_not_loaded :
    twiceSaved (.account ⟨"a.b", "a.b", some "p"⟩) (.account ⟨"c.d", "c.d", some "q"⟩) =
      some (some (.account ⟨"a.b", "a.b", some "p"⟩),
        [.account ⟨"a.b", "a.b", none⟩, .account ⟨"c.d", "c.d", none⟩]) := by
  decide +kernel

/-- A session that is saved in the empty folder is loaded with its secret, and is the only one. -/
theorem saved_alone_is_loaded : ∃ later after,
    (plainKeeper.save (.account ⟨"a.b", "a.b", some "p"⟩)).exec none plainMade.2 =
      (.ok (), later, after) ∧
    plainKeeper.Loads (.account ⟨"a.b", "a.b", some "p"⟩) after ∧
    sessionsOn ["home"] after = [.account ⟨"a.b", "a.b", none⟩] := by
  have returned : ((plainKeeper.save (.account ⟨"a.b", "a.b", some "p"⟩)).exec none
      plainMade.2).1.isOk = true := by decide +kernel
  have made : (make ⟨"/", ["home"]⟩ { factory := plainFactory }).exec Machine.bare =
      (.ok plainKeeper, plainMade.2) := (eq_ok_get _ : plainMade = _)
  obtain ⟨own, same⟩ := madeIn_of_make made
  have lasting : IsLasting (.account ⟨"a.b", "a.b", some "p"⟩) := by
    refine ⟨⟨by decide, by decide, ?_⟩, trivial, ?_⟩
    · rintro _ ⟨⟩
      decide
    · rintro _ ⟨⟩
  have blank : Secret.Vault.HoldsLedger ["home"] Machine.bare .empty :=
    ⟨[], .inl ⟨rfl, Machine.under_bare _⟩, rfl⟩
  generalize plainMade.2 = start at made returned same ⊢
  have free : start.under ["home"] indexName = none := by
    have tree : start.tree = Machine.bare.tree := congrArg Prod.fst same
    rw [Machine.under, tree]
    exact Machine.under_bare indexName
  have nobody : sessionsOn ["home"] start = [] := by
    rw [sessionsOn, Record.Holds.entriesAt_eq (.inl ⟨rfl, free⟩)]
    rfl
  rcases saved : (plainKeeper.save (.account ⟨"a.b", "a.b", some "p"⟩)).exec none start with
    ⟨failure | _, later, after⟩
  · rw [saved] at returned
    cases returned
  · obtain ⟨-, -, -, -, -, alone⟩ := saved_session_is_kept made Machine.ground_bare
      Machine.under_bare (by decide) (Secret.Vault.keepsAway _) (Secret.Vault.isSteady _ _) blank
      (plainFactory_keepsAway own.tokens) .start lasting rfl (by decide) saved
    rw [nobody] at alone
    refine ⟨later, after, rfl, alone.mpr ?_⟩
    rintro _ ⟨⟩

end SessionKeeper.Keeper
