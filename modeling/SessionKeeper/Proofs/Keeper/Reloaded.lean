import SessionKeeper.Proofs.Keeper.Run
import SessionKeeper.Proofs.Keeper.Stored

/-!
# Sessions that were made current are loaded

A login or a registration that returns has taken the session lock, so the folder stands by then
even if it had to be made. Whatever was found in the folder, the session is stored as the only
one, and whoever loads the session from the same files and secrets gets it back.
-/
namespace SessionKeeper

section

variable [Runtime]

/-- That an operation changes nothing about what the index is taken for, wherever it runs. -/
def Action.LeavesIndex {α : Type} (place : Location) (action : Action α) : Prop :=
  ∀ machine, machine.tree.Numbered →
    Record.entriesAt (action.exec machine).2 place Keeper.indexName =
      Record.entriesAt machine place Keeper.indexName

/-- That a client keeps to files of its own, and leaves the index alone also where the folder
does not stand yet. -/
structure OAuth.Client.IsDiscreet (folder : Path) (place : Location) (client : OAuth.Client) :
    Prop where
  apart : client.IsApart folder place
  authorize : ∀ handle, (client.authorize handle).LeavesIndex place

/-- That making a client leaves the index alone and makes one that does so. -/
structure OAuth.Factory.IsDiscreet (factory : OAuth.Factory) (stores : OAuth.Stores)
    (folder : Path) (place : Location) : Prop where
  makes : (factory stores).LeavesIndex place
  made : ∀ machine client after, (factory stores).exec machine = (.ok client, after) →
    client.IsDiscreet folder place

namespace Keeper

variable {keeper : Keeper} {folder : Path} {place : Location} {machine : Machine}
  {holds : Machine → Secret.Ledger → Prop} {now : Moment} {entries : Assoc Text Json} {scene : Scene}

/-- What the index is taken for at the place of a folder, whether or not it stands yet. -/
structure Foresees (folder : Path) (place : Location) (now : Moment) (entries : Assoc Text Json)
    (machine : Machine) : Prop where
  numbered : machine.tree.Numbered
  aim : ∀ (tree : Tree) l, tree.locate machine.directory folder = .ok l → l = place
  index : Record.entriesAt machine place indexName = entries
  now : machine.now = now

/-- A scene with such an index and a discreet client. -/
abbrev Foreseen (folder : Path) (place : Location) (now : Moment) (entries : Assoc Text Json) :
    Scene → Prop :=
  Attended (Foresees folder place now entries) (·.IsDiscreet folder place)

theorem Foresees.leaves {α : Type} (h : Foresees folder place now entries machine)
    {action : Action α} (leaves : action.LeavesIndex place) :
    Foresees folder place now entries (action.exec machine).2 where
  numbered := h.numbered.of_run action.run
  aim := by
    rw [(Machine.SameCircumstances.of_exec action machine).directory]
    exact h.aim
  index := (leaves machine h.numbered).trans h.index
  now := (Machine.SameCircumstances.of_exec action machine).now.trans h.now

theorem leavesIndex_of_passive {α : Type} {action : Action α} (h : action.IsPassive) :
    action.LeavesIndex place := fun machine _ =>
  Record.entriesAt_of_under (by rw [Machine.under, Machine.under, h.tree machine])

theorem Foresees.quiet {after : Machine} (h : Foresees folder place now entries machine)
    (quiet : machine.Quiet after) : Foresees folder place now entries after where
  numbered := quiet.tree ▸ h.numbered
  aim := by
    rw [quiet.circumstances.directory]
    exact h.aim
  index := (Record.entriesAt_of_under (quiet.under _ _)).trans h.index
  now := quiet.circumstances.now.trans h.now

/-- Directories that are added do not change what a file is taken for. -/
theorem entriesAt_of_grown {after : Machine} (grown : Tree.Grown machine.tree after.tree)
    (name : String) : Record.entriesAt after place name = Record.entriesAt machine place name := by
  rcases grown (place ++ [name]) with same | ⟨free, mode, there⟩
  · exact Record.entriesAt_of_under same
  · have free' : machine.under place name = none := free
    have there' : after.under place name = some (.directory mode) := there
    rw [Record.entriesAt, Record.entriesAt, free', there']

/-- Once the session lock was taken, the folder stands and the index is as it was foreseen. -/
theorem acquire_indexes (own : keeper.StoresIn folder place holds)
    (h : Foresees folder place now entries machine) :
    (keeper.lock.acquire lockKey).Yields machine fun marker after =>
      Indexes folder place now entries after ∧ marker.key = lockKey := by
  have lockName : Lock.fileName? lockKey = some "lock-cli-session.json" := rfl
  intro marker after he
  obtain ⟨place', between, grown, fixed, g, only, g'⟩ :=
    Lock.acquire_reaches own.lock h.numbered lockName not_isReserved_marker.1 marker after he
  obtain rfl : place' = place := by
    have leads := g.leads
    rw [fixed.directory] at leads
    exact h.aim between.tree place' leads
  refine ⟨⟨g', ?_, ?_⟩, Lock.key_of_acquire own.lock lockName he⟩
  · rw [Record.entriesAt_of_under (only.under (by decide)), entriesAt_of_grown grown, h.index]
  · rw [(Machine.SameCircumstances.of_exec_eq he).now, h.now]

theorem enter_yields (own : keeper.StoresIn folder place holds)
    (h : Indexed folder place now entries scene) (filed : Session.AreFiled entries)
    {session : Session} (joined : session.IsJoined) (sound : session.IsSound) {secret : Text}
    (known : session.secret? = some secret) (some_secret : secret ≠ []) : (do
      keeper.dropOthers session.subject (← keeper.indexed)
      keeper.persist session : SessionAction Unit).Yields scene fun _ after =>
        Ground after.machine folder place ∧ keeper.HasStored place holds session after.machine := by
  refine .bind (P := fun sessions after => sessions = Session.listed now entries ∧
    Indexed folder place now entries after) (.lift ?_) fun sessions later ⟨heq, hl⟩ => ?_
  · exact (indexed_yields own h.machine).mono fun _ _ ⟨heq, quiet⟩ =>
      ⟨heq, h.machine.quiet quiet, h.client⟩
  rw [heq]
  refine .bind (dropOthers_indexed own hl filed session.subject _ fun other ho =>
    Or.inr ⟨other, ho, rfl⟩) fun _ dropped ⟨left, hd, filed', others⟩ => ?_
  exact .lift (persist_yields own hd.machine filed' joined sound known some_secret others)

/-- Making a session current, whatever was there before, stores it as the only one. -/
theorem replaceBy_yields (own : keeper.StoresIn folder place holds)
    (h : Foreseen folder place now entries scene) (filed : Session.AreFiled entries)
    {session : Session} (joined : session.IsJoined) (sound : session.IsSound) {secret : Text}
    (known : session.secret? = some secret) (some_secret : secret ≠ []) :
    (keeper.replaceBy session).Yields scene fun _ after =>
      Ground after.machine folder place ∧ keeper.HasStored place holds session after.machine := by
  have file := not_isReserved_marker.1
  have lockName : Lock.fileName? lockKey = some "lock-cli-session.json" := rfl
  refine .holding (acquire_indexes own h.machine) fun marker between ⟨hb, hk⟩ => ?_
  rw [← hk] at lockName
  have indexed : Indexed folder place now entries ⟨scene.client, between⟩ :=
    ⟨hb, fun c hc => (h.client c hc).apart⟩
  refine (enter_yields own indexed filed joined sound known some_secret).mono
    fun _ last ⟨ground, stored⟩ => .of_exec rfl fun _ _ => ?_
  have confined : (keeper.lock.release marker).Confined folder place (· = "lock-cli-session.json") :=
    Lock.release_confined own.lock lockName file
  exact ⟨ground.exec rfl (confined last.machine ground), stored.confined own ground
    (confined.mono fun _ hn => hn ▸ not_isReserved_marker.2) (Lock.release_keychain _ _)⟩

/-- What is true of a session with joined texts once it was made current. -/
def Entered (keeper : Keeper) (folder : Path) (place : Location)
    (holds : Machine → Secret.Ledger → Prop) (session : Session) (machine : Machine) : Prop :=
  session.IsJoined → Ground machine folder place ∧ keeper.HasStored place holds session machine ∧
    IsLasting session

/-- Making current the session of an account that was authorized or of a worker that was made,
and a note of it. -/
theorem entered_yields (own : keeper.StoresIn folder place holds)
    (h : Foreseen folder place now entries scene) (filed : Session.AreFiled entries)
    {session : Session} (lasting : session.IsJoined → IsLasting session) {secret : Text}
    (known : session.secret? = some secret) (some_secret : secret ≠ []) (note : String) {β : Type}
    (result : β) : (do
      keeper.replaceBy session
      Action.log .info .session note
      return result : SessionAction β).Yields scene fun found after =>
        found = result ∧ keeper.Entered folder place holds session after.machine := by
  refine .bind (P := fun _ after => keeper.Entered folder place holds session after.machine) ?_
    fun _ between hb => ?_
  · by_cases joined : session.IsJoined
    · have last := lasting joined
      exact (replaceBy_yields own h filed joined last.sound known some_secret).mono
        fun _ _ ⟨ground, stored⟩ _ => ⟨ground, stored, last⟩
    · exact fun _ _ _ _ hj => absurd hj joined
  · refine .bind (P := fun _ after => keeper.Entered folder place holds session after.machine)
      (.lift (.of_exec rfl fun _ _ joined => ?_)) fun _ _ ha => .pure ⟨rfl, ha⟩
    have ⟨ground, stored, last⟩ := hb joined
    exact ⟨ground.of_quiet (.of_passive (.log _ _ _) _), stored.of_under own (fun _ _ => rfl) rfl, last⟩

/-- A login that returns has made its session current. -/
theorem login_yields (own : keeper.StoresIn folder place holds)
    (discreet : keeper.factory.IsDiscreet keeper.stores folder place)
    (h : Foreseen folder place now entries scene) (filed : Session.AreFiled entries) (handle : Text)
    (replace : Bool) : (keeper.login handle replace).Yields scene fun s after =>
      keeper.Entered folder place holds (.account s) after.machine := by
  have looks : keeper.current?.Ends scene.machine fun _ after =>
      Foreseen folder place now entries ⟨scene.client, after⟩ :=
    ⟨h.machine.quiet (.of_passive (current?_passive keeper) _), h.client⟩
  rw [login_eq]
  refine .bind (.of_ends ((screen_ends h looks handle.trim replace).mono fun _ _ ha _ _ => ha))
    fun _ between hb => ?_
  refine .bind (P := fun _ after => Foreseen folder place now entries after)
    (.lift (.of_exec rfl fun _ _ => ⟨hb.machine.quiet (.of_passive (.log _ _ _) _), hb.client⟩))
    fun _ before hl => ?_
  have authorized := authorize_attended (R := fun _ => Foresees folder place now entries)
    (E := Foresees folder place now entries)
    (fun machine hm => ⟨hm.leaves discreet.makes, fun client ho =>
      discreet.made machine client _ (Prod.ext ho rfl)⟩)
    (fun client apart machine hm => by
      have after := hm.leaves (apart.authorize handle.trim)
      exact ⟨fun _ _ => after, after⟩)
    (fun _ _ _ hm _ quiet => ⟨hm.quiet quiet, hm.quiet quiet⟩) (fun _ hm => hm) hl
  refine .bind (P := fun s after => Foreseen folder place now entries after ∧
    ∃ passphrase, s.passphrase = some passphrase ∧ passphrase ≠ [])
    (.of_ends (authorized.mono fun outcome after ha s hs => ⟨ha.1, (ha.2 s hs).2.2⟩))
    fun s between ⟨hi, passphrase, known, some_secret⟩ => ?_
  have lasting (joined : (Session.account s).IsJoined) : IsLasting (.account s) :=
    ⟨joined, trivial, nofun⟩
  refine (entered_yields own hi filed lasting known some_secret "Login complete" s).mono ?_
  rintro _ _ ⟨rfl, entered⟩
  exact entered

/-- A registration that returns has made its session current. -/
theorem registerWorker_yields (own : keeper.StoresIn folder place holds)
    (h : Foreseen folder place now entries scene) (filed : Session.AreFiled entries)
    (clock : now.IsSound ∧ now.stored = now) (id name secret : Text) :
    (keeper.registerWorker id name secret).Yields scene fun s after =>
      keeper.Entered folder place holds (.worker s) after.machine := by
  rw [registerWorker_eq]
  refine .bind (P := fun session after => scene = after ∧ ∃ worker,
    Worker.make id name secret now = .ok worker ∧ session = .ofWorker worker ∧ secret ≠ [])
    (.of_ends ((enroll_ends id name secret).mono ?_)) fun session between ⟨same, told⟩ => ?_
  · rintro outcome after ⟨same, told⟩ session ho
    exact ⟨same, h.machine.now ▸ told session ho⟩
  obtain ⟨worker, made, rfl, some_secret⟩ := told
  subst same
  obtain ⟨parts, hid, hname⟩ := Worker.make_ok made
  have known : worker.secret = some secret := by rw [parts]
  have lasting (joined : (Session.worker (WorkerSession.ofWorker worker)).IsJoined) :
      IsLasting (.worker (WorkerSession.ofWorker worker)) := by
    refine ⟨joined, Worker.isSound_of_make made clock.1, ?_⟩
    rintro _ ⟨⟩
    rw [parts]
    exact ⟨Text.trim_trim id, Text.trim_trim name, clock.2⟩
  refine (entered_yields own h filed lasting known some_secret "Registered worker" _).mono ?_
  rintro _ _ ⟨rfl, entered⟩
  exact entered

/-- What an operation that made a session and returned has made current. -/
theorem perform_yields (own : keeper.StoresIn folder place holds)
    (discreet : keeper.factory.IsDiscreet keeper.stores folder place)
    (h : Foreseen folder place now entries scene) (filed : Session.AreFiled entries)
    (clock : now.IsSound ∧ now.stored = now) {operation : Operation}
    (entry : operation.isEntry = true) :
    (keeper.perform operation).Yields scene fun result after => ∀ session, result = some session →
      keeper.Entered folder place holds session after.machine := by
  cases operation with
  | login handle replace =>
    refine .bind (login_yields own discreet h filed handle replace) fun s after he => .pure ?_
    rintro _ ⟨⟩
    exact he
  | registerWorker id name secret =>
    refine .bind (registerWorker_yields own h filed clock id name secret) fun s after he => .pure ?_
    rintro _ ⟨⟩
    exact he
  | _ => nomatch entry

/-- Whatever the files held, provided that the sessions in the index are filed under their own
subjects: the session of a login or a registration that returned is the one that is loaded
afterwards, with its secret and all, also by another keeper of the same files and secrets and at
a later time. The folder need not stand before, and the clock may tell any time that its stored
text tells, such as universal time. -/
theorem load_of_entry (own : keeper.StoresIn folder place holds)
    (discreet : keeper.factory.IsDiscreet keeper.stores folder place)
    (numbered : machine.tree.Numbered)
    (aim : ∀ (tree : Tree) l, tree.locate machine.directory folder = .ok l → l = place)
    (filed : Session.AreFiled (Record.entriesAt machine place indexName))
    (clock : machine.now.IsSound ∧ machine.now.stored = machine.now)
    {client : Option OAuth.Client} (present : ∀ c, client = some c → c.IsDiscreet folder place)
    {operation : Operation} (entry : operation.isEntry = true) {session : Session}
    {later : Option OAuth.Client} {after : Machine}
    (ended : (keeper.perform operation).exec client machine = (.ok (some session), later, after))
    (joined : session.IsJoined) {other : Keeper} (shares : other.SharesWith keeper)
    {next : Machine} (kept : next.belongings = after.belongings)
    (directory : next.directory = after.directory) :
    ∃ last, other.load.exec next = (.ok (some session), last) := by
  have foreseen : Foreseen folder place machine.now (Record.entriesAt machine place indexName)
      ⟨client, machine⟩ := ⟨⟨numbered, aim, rfl, rfl⟩, present⟩
  obtain ⟨ground, stored, lasting⟩ := perform_yields own discreet foreseen filed clock entry
    (some session) later after ended session rfl joined
  have tree : next.tree = after.tree := congrArg Prod.fst kept
  have under (name : String) : next.under place name = after.under place name := by
    rw [Machine.under, Machine.under, tree]
  have ground' : Ground next folder place := by
    obtain ⟨leads, stands, numbered⟩ := ground
    rw [← tree] at leads stands numbered
    exact ⟨directory ▸ leads, stands, numbered⟩
  have stored' := stored.of_under own (fun name _ => under name) (congrArg Prod.snd kept)
  obtain ⟨last, he, -⟩ := stored'.load_exec own ground' lasting
  rw [shares.load_eq]
  exact ⟨last, he⟩

/-- Writing a record file of another name leaves the index alone, also where its folder has to be
made first. -/
theorem put_leavesIndex {name : String} (hn : Tree.IsFileName name)
    (apart : ∀ other, (other = name ∨ ∃ k, other = Machine.temporaryName name k) →
      other ≠ indexName) (key : Text) (value : Json) :
    (Record.Store.put ⟨folder.child name⟩ key value).LeavesIndex place := by
  intro machine numbered
  have read := Machine.Quiet.of_passive (Record.Store.entries_passive ⟨folder.child name⟩) machine
  have same {after : Machine} (quiet : machine.Quiet after) :
      Record.entriesAt after place indexName = Record.entriesAt machine place indexName :=
    Record.entriesAt_of_under (quiet.under _ _)
  rw [Record.Store.put, Action.exec_bind]
  rcases he : (Record.Store.entries ⟨folder.child name⟩).exec machine with ⟨failure | found, between⟩ <;>
    rw [he] at read
  · exact same read
  have some_left : (found.put key value).isEmpty = false := by
    cases found with
    | nil => rfl
    | cons pair rest =>
      rw [Assoc.put]
      split_ifs <;> rfl
  dsimp only
  rw [Record.Store.replace, if_neg (by simp [some_left]), Record.write]
  cases Record.octetsOf (.obj (found.put key value)) with
  | error limit => exact same read
  | ok octets =>
    dsimp only
    rw [Path.parent_child, Action.exec_bind]
    obtain ⟨outcome, later, hl, made⟩ := Folder.ensure_made folder between
    have grown : Record.entriesAt later place indexName = Record.entriesAt machine place indexName :=
      (entriesAt_of_grown made.paved.grown indexName).trans (same read)
    rw [hl]
    cases outcome with
    | error failure => exact grown
    | ok _ =>
      have fixed := Machine.SameCircumstances.of_exec_eq hl
      have stands := made.stands.mp rfl
      rw [← fixed.directory] at stands
      have ordered := (read.tree ▸ numbered : between.tree.Numbered).of_exec_eq hl
      obtain ⟨place', g⟩ := stands.exists_ground ordered
      have only := Record.replaceFile_confined hn octets later g
      refine (Record.entriesAt_of_under (only.elsewhere _ fun other ho heq => ?_)).trans grown
      exact apart other ho (List.singleton_injective (List.append_inj_right' heq rfl)).symm

theorem plainFactory_isDiscreet {stores : OAuth.Stores}
    (tokens : stores.sessions = ⟨folder.child tokensName⟩) :
    plainFactory.IsDiscreet stores folder place := by
  have apart (other : String)
      (ho : other = tokensName ∨ ∃ k, other = Machine.temporaryName tokensName k) :
      other ≠ indexName := by
    rintro rfl
    exact not_isReserved_tokens indexName ho (isReserved_of_mem mem_indexName)
  refine ⟨leavesIndex_of_passive (.pure _), fun machine client after h =>
    ⟨isApart_of_plainFactory tokens h, ?_⟩⟩
  obtain ⟨⟩ := h
  intro handle machine numbered
  have put : Record.entriesAt ((Record.Store.put ⟨folder.child tokensName⟩ handle
      (.obj [("access_token", .str "t")])).exec machine).2 place indexName =
        Record.entriesAt machine place indexName :=
    put_leavesIndex ⟨by decide, by decide⟩ apart handle _ machine numbered
  rw [← tokens] at put
  rw [Action.exec_bind]
  rcases he : (stores.sessions.put handle (.obj [("access_token", .str "t")])).exec machine with
    ⟨failure | _, between⟩ <;> rw [he] at put <;> exact put

end Keeper

end

namespace Keeper

open scoped SessionKeeper.Runtime in
/-- The session of a login is loaded by a keeper without a client, years later. -/
theorem load_of_login : ∃ client after,
    (plainKeeper.perform (.login "a.b" false)).exec none plainMade.2 =
      (.ok (some (.account ⟨"a.b", "a.b", some "p"⟩)), client, after) ∧ ∃ last,
    (Keeper.load { plainKeeper with factory := OAuth.unavailable }).exec
      { after with now := ⟨⟨2030, 1, 1, by decide, by decide, by decide⟩, Moment.midnight, none⟩ } =
        (.ok (some (.account ⟨"a.b", "a.b", some "p"⟩)), last) := by
  have returned : ((plainKeeper.perform (.login "a.b" false)).exec none plainMade.2).1 =
      .ok (some (.account ⟨"a.b", "a.b", some "p"⟩)) := ending_eq_ok (by decide +kernel)
  have made : (make ⟨"/", ["home"]⟩ { factory := plainFactory }).exec Machine.bare =
      (.ok plainKeeper, plainMade.2) := (eq_ok_get _ : plainMade = _)
  obtain ⟨own, same⟩ := madeIn_of_make made
  have fixed : Machine.bare.SameCircumstances plainMade.2 := .of_exec _ _
  clear made
  generalize plainMade.2 = start at returned same fixed
  generalize plainKeeper = keeper at returned own
  have ground : Ground start ⟨"/", ["home"]⟩ ["home"] :=
    Machine.ground_bare.of_quiet ⟨fixed, same⟩
  have free : start.under ["home"] indexName = none := by
    have tree : start.tree = Machine.bare.tree := congrArg Prod.fst same
    rw [Machine.under, tree]
    exact Machine.under_bare indexName
  have clock : start.now.IsSound ∧ start.now.stored = start.now := by
    rw [fixed.now]
    exact ⟨isSound_bare, by decide⟩
  have stores : keeper.StoresIn ⟨"/", ["home"]⟩ ["home"]
      (Secret.Vault.HoldsLedger ["home"]) := by
    refine ⟨own.index, own.workers, own.tokens, own.lock, ?_, ?_, ?_⟩
    · rw [own.service]
      decide
    · rw [own.secrets]
      exact Secret.Vault.keeps _ _
    · rw [own.factory]
      exact plainFactory_isApart own.tokens
  have discreet : keeper.factory.IsDiscreet keeper.stores ⟨"/", ["home"]⟩ ["home"] := by
    rw [own.factory]
    exact plainFactory_isDiscreet own.tokens
  have joined : (Session.account ⟨"a.b", "a.b", some "p"⟩).IsJoined := by
    refine ⟨by decide, by decide, ?_⟩
    rintro _ ⟨⟩
    decide
  have aim (tree : Tree) (l : Location)
      (hl : tree.locate start.directory ⟨"/", ["home"]⟩ = .ok l) : l = ["home"] :=
    Tree.walk_unique hl ground.leads
  have filed : Session.AreFiled (Record.entriesAt start ["home"] indexName) := by
    rw [Record.Holds.entriesAt_eq (.inl ⟨rfl, free⟩)]
    exact List.forall_mem_nil _
  have present (c : OAuth.Client) (h : none = some c) : c.IsDiscreet ⟨"/", ["home"]⟩ ["home"] := by
    cases h
  exact ⟨_, _, Prod.ext returned rfl, load_of_entry stores discreet ground.numbered aim filed clock
    present rfl (Prod.ext returned rfl) joined ⟨rfl, rfl, rfl, rfl⟩ rfl rfl⟩

end Keeper

end SessionKeeper
