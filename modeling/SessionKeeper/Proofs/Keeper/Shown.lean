import SessionKeeper.Proofs.Keeper.Files
import SessionKeeper.Proofs.Session.Recalled

/-!
# The index of a keeper

`Shows` says which session the index has, if it has one. The index is written in two steps
only: taking a subject out of it, which takes out its session, and putting a session in,
which needs an index that is empty or has a session of the same subject.
-/
namespace SessionKeeper

/-- That a client touches none of the files that a keeper needs for itself. -/
structure OAuth.Client.IsApart (folder : Path) (place : Location) (client : OAuth.Client) :
    Prop where
  authorize : ∀ handle, (client.authorize handle).Confined folder place (¬ Keeper.IsReserved ·)
  revoke : ∀ subject, (client.revoke subject).Confined folder place (¬ Keeper.IsReserved ·)

/-- That making a client touches none of these files either. -/
structure OAuth.Factory.IsApart (factory : OAuth.Factory) (stores : OAuth.Stores) (folder : Path)
    (place : Location) : Prop where
  makes : (factory stores).Confined folder place (¬ Keeper.IsReserved ·)
  made : ∀ machine client after, Ground machine folder place →
    (factory stores).exec machine = (.ok client, after) → client.IsApart folder place

namespace Keeper

/-- That a keeper keeps the sessions of a folder, with a backend that spares the index and
clients that keep to files of their own. -/
structure KeptIn (keeper : Keeper) (folder : Path) (place : Location) : Prop where
  index : keeper.index = ⟨folder.child indexName⟩
  workers : keeper.workers = ⟨folder.child workersName⟩
  tokens : keeper.stores.sessions = ⟨folder.child tokensName⟩
  lock : keeper.lock.folder = folder
  secrets : keeper.secrets.SparesIndex folder place
  clients : keeper.factory.IsApart keeper.stores folder place

def entriesFor : Option Session → Assoc Text Json
  | none => []
  | some session => [(session.subject, session.indexRecord)]

/-- These entries as they are read back. -/
def recalledEntries : Option Session → Assoc Text Json
  | none => []
  | some session => [(session.subject.rejoin, session.indexRecord.reread)]

/-- That a machine has this session, or none, in the index of a folder in order. -/
structure Shows (folder : Path) (place : Location) (current : Option Session) (machine : Machine) :
    Prop where
  orderly : Orderly folder place machine
  written : Record.Written machine place indexName (entriesFor current)
  sound : ∀ session, current = some session → session.IsSound
  clock : machine.now.IsSound

/-- A scene whose index shows a session and whose client keeps apart. -/
structure Kept (folder : Path) (place : Location) (current : Option Session) (scene : Scene) :
    Prop where
  shows : Shows folder place current scene.machine
  client : ∀ client, scene.client = some client → client.IsApart folder place

variable {keeper : Keeper} {folder : Path} {place : Location} {current : Option Session}
  {machine : Machine} {scene : Scene}

theorem mem_indexName : indexName ∈ ownNames := by decide

theorem Shows.spared {α : Type} (h : Shows folder place current machine) {action : Action α}
    (spares : action.SparesIndex folder place) :
    Shows folder place current (action.exec machine).2 := by
  have ⟨orderly, same⟩ := spares machine h.orderly
  refine ⟨orderly, h.written.of_under same, h.sound, ?_⟩
  rw [(Machine.SameCircumstances.of_exec action machine).now]
  exact h.clock

variable [Runtime]

theorem fits_entriesFor (shown : Option Session) :
    (Json.obj (entriesFor shown)).fits (Runtime.reads + 1) = true := by
  have shallow : (Json.obj (entriesFor shown)).fits 3 = true := by
    rcases shown with _ | (_ | _) <;> rfl
  exact Json.fits_of_le (Nat.le_succ _) (Json.fits_roomy shallow (by decide))

theorem Shows.holds (h : Shows folder place current machine) :
    Record.Holds machine place indexName (recalledEntries current) := by
  have hf : (Json.obj (entriesFor current)).isCanonical = true := by
    cases current with
    | none => rfl
    | some session =>
      show (session.indexRecord.isCanonical && true) = true
      rw [session.isCanonical_indexRecord]
      rfl
  have holds := h.written.holds hf (fits_entriesFor current)
  cases current <;> exact holds

theorem indexed_of_holds (hi : keeper.index = ⟨folder.child indexName⟩)
    (g : Ground machine folder place)
    (held : Record.Holds machine place indexName (recalledEntries current))
    (sound : ∀ session, current = some session → session.IsSound) :
    keeper.indexed.exec machine = (.ok (current.map Session.recalled).toList, machine) := by
  have he := Record.Store.entries_exec g (isRecordName_of_mem _ mem_indexName).file held
  rw [indexed, hi]
  refine (Action.exec_bind_ok rfl).trans ((Action.exec_bind_ok he).trans ?_)
  cases current with
  | none => rfl
  | some session =>
    have hr := session.read_reread (sound session rfl) machine.now
    show (readAll _ _ [session.indexRecord.reread]).exec machine = _
    rw [readAll, hr]
    rfl

theorem current?_of_holds (hi : keeper.index = ⟨folder.child indexName⟩)
    (g : Ground machine folder place)
    (held : Record.Holds machine place indexName (recalledEntries current))
    (sound : ∀ session, current = some session → session.IsSound) :
    keeper.current?.exec machine = (.ok (current.map Session.recalled), machine) := by
  rw [current?]
  refine (Action.exec_bind_ok (indexed_of_holds hi g held sound)).trans ?_
  cases current <;> rfl

theorem indexed_exec (hi : keeper.index = ⟨folder.child indexName⟩)
    (h : Shows folder place current machine) :
    keeper.indexed.exec machine = (.ok (current.map Session.recalled).toList, machine) :=
  indexed_of_holds hi h.orderly.ground h.holds h.sound

theorem current?_exec (hi : keeper.index = ⟨folder.child indexName⟩)
    (h : Shows folder place current machine) :
    keeper.current?.exec machine = (.ok (current.map Session.recalled), machine) :=
  current?_of_holds hi h.orderly.ground h.holds h.sound

/-- What writing to the index changes. -/
structure IndexWritten (folder : Path) (place : Location) (shown : Option Session)
    (before after : Machine) : Prop where
  shows : Shows folder place shown after
  only : ChangedOnly place (· = indexName) before after
  keychain : after.keychain = before.keychain

theorem indexWritten_of_replaced (h : Shows folder place current machine) {after : Machine}
    {action : Action Unit} {outcome : Except Failure Unit} {shown : Option Session}
    (he : action.exec machine = (outcome, after))
    (replaced : Record.Replaced place indexName (entriesFor shown) machine outcome after)
    (sound : ∀ session, shown = some session → session.IsSound) :
    outcome = .ok () ∧ IndexWritten folder place shown machine after := by
  have w := h.orderly.writable _ mem_indexName
  have printable := Json.fits_prints (fits_entriesFor shown)
  rcases replaced.result with ⟨ok, written⟩ | ⟨-, unprintable, -⟩
  · have t := replaced.touched w
    have g := h.orderly.ground.exec he t.only
    have hm : after = (action.exec machine).2 := (congrArg Prod.snd he).symm
    refine ⟨ok, ⟨h.orderly.of_touched g mem_indexName t, written, sound, ?_⟩, t.only, t.keychain⟩
    rw [hm, (Machine.SameCircumstances.of_exec action machine).now]
    exact h.clock
  · rw [printable] at unprintable
    nomatch unprintable

/-- Taking a subject out of the index takes out its session. -/
theorem index_remove_exec (hi : keeper.index = ⟨folder.child indexName⟩)
    (h : Shows folder place current machine) (subject : Text) :
    ∃ after, (keeper.index.remove subject).exec machine = (.ok (), after) ∧
      IndexWritten folder place (current.filter fun session => session.subject.rejoin ≠ subject)
        machine after := by
  have hn := isRecordName_of_mem _ mem_indexName
  rw [hi]
  have stays (same : current.filter (fun session => session.subject.rejoin ≠ subject) = current)
      (absent : Assoc.has (recalledEntries current) subject = false) :
      ∃ after, (Record.Store.remove ⟨folder.child indexName⟩ subject).exec machine =
          (.ok (), after) ∧ IndexWritten folder place
            (current.filter fun session => session.subject.rejoin ≠ subject) machine after := by
    rw [same]
    exact ⟨machine, Record.Store.remove_exec_absent h.orderly.ground hn h.holds absent, h,
      ChangedOnly.refl _, rfl⟩
  cases current with
  | none => exact stays rfl rfl
  | some session =>
    by_cases hs : session.subject.rejoin = subject
    · have hk : Assoc.has (recalledEntries (some session)) subject = true := by
        simp [Assoc.has, hs, recalledEntries]
      obtain ⟨outcome, after, he, replaced⟩ := Record.Store.remove_exec h.orderly.ground hn
        (h.orderly.writable _ mem_indexName) h.holds hk
      have gone : Option.filter (fun session => session.subject.rejoin ≠ subject) (some session) =
          none := by simp [hs]
      have left : Assoc.remove (recalledEntries (some session)) subject = entriesFor none := by
        simp [Assoc.remove, hs, entriesFor, recalledEntries]
      rw [left] at replaced
      obtain ⟨rfl, written⟩ := indexWritten_of_replaced h he replaced (by simp)
      rw [gone]
      exact ⟨after, he, written⟩
    · exact stays (by simp [hs]) (by simp [Assoc.has, hs, recalledEntries])

theorem index_put_exec (hi : keeper.index = ⟨folder.child indexName⟩)
    (h : Shows folder place current machine) {session : Session} (sound : session.IsSound)
    (room : ∀ other, current = some other → other.subject.rejoin = session.subject) :
    ∃ after, (keeper.index.put session.subject session.indexRecord).exec machine =
      (.ok (), after) ∧ IndexWritten folder place (some session) machine after := by
  rw [hi]
  obtain ⟨outcome, after, he, replaced⟩ := Record.Store.put_exec h.orderly.ground
    (isRecordName_of_mem _ mem_indexName) (h.orderly.writable _ mem_indexName) h.holds
    session.subject session.indexRecord
  have hp : Assoc.put (recalledEntries current) session.subject session.indexRecord =
      entriesFor (some session) := by
    cases current with
    | none => rfl
    | some other => simp [Assoc.put, room other rfl, entriesFor, recalledEntries]
  rw [hp] at replaced
  obtain ⟨rfl, written⟩ := indexWritten_of_replaced h he replaced
    fun other ho => Option.some.inj ho ▸ sound
  exact ⟨after, he, written⟩

end Keeper

end SessionKeeper
