import SessionKeeper.Keeper.Lifecycle
import SessionKeeper.Keeper.Workers
import SessionKeeper.Proofs.Lock.Files
import SessionKeeper.Proofs.Script.Ends

/-!
# The files of a keeper

A keeper has three record files of its own: the session index, the workers and the vault.
`Orderly` says that all three can be written. An operation spares the index when it keeps
that order and leaves the index as it stands; everything but the two writes to the index
does, and so does an OAuth client that keeps to files of its own.
-/
namespace SessionKeeper

namespace Keeper

/-- The record files that only a keeper writes. -/
def ownNames : List String := [indexName, workersName, Secret.Vault.fileName]

/-- Whether a name is one of the keeper's own or that of a temporary file beside it. -/
def IsReserved (name : String) : Prop :=
  ∃ own ∈ ownNames, name = own ∨ name = Machine.temporaryName own 0

instance : DecidablePred IsReserved := fun name =>
  inferInstanceAs (Decidable (∃ own ∈ ownNames, name = own ∨ name = Machine.temporaryName own 0))

/-- A folder whose record files can be written. -/
structure Orderly (folder : Path) (place : Location) (machine : Machine) : Prop where
  ground : Ground machine folder place
  writable : ∀ own ∈ ownNames, Record.Writable machine place own

theorem isRecordName_of_mem : ∀ own ∈ ownNames, Record.IsRecordName own := by
  have h (name : String) (hd : name ≠ "..") (hs : Tree.isTooLong name = false)
      (td : Machine.temporaryName name 0 ≠ "..")
      (ts : Tree.isTooLong (Machine.temporaryName name 0) = false) : Record.IsRecordName name :=
    ⟨⟨hd, hs⟩, ⟨td, ts⟩⟩
  intro own ho
  simp only [ownNames, List.mem_cons, List.not_mem_nil, or_false] at ho
  rcases ho with rfl | rfl | rfl <;> exact h _ (by decide) (by decide) (by decide) (by decide)

theorem temporaryName_not_mem : ∀ own ∈ ownNames, Machine.temporaryName own 0 ∉ ownNames := by
  decide

theorem isReserved_of_mem {own : String} (h : own ∈ ownNames) : IsReserved own :=
  ⟨own, h, Or.inl rfl⟩

theorem isReserved_temporary {own : String} (h : own ∈ ownNames) :
    IsReserved (Machine.temporaryName own 0) := ⟨own, h, Or.inr rfl⟩

/-- The file of the token sets and the temporary files beside it are not reserved. -/
theorem not_isReserved_tokens (name : String)
    (h : name = tokensName ∨ ∃ k, name = Machine.temporaryName tokensName k) :
    ¬ IsReserved name := by
  have start : ∀ own ∈ ownNames, own.toList.take 2 ≠ ['.', 'o'] ∧
      (Machine.temporaryName own 0).toList.take 2 ≠ ['.', 'o'] := by decide
  rcases h with rfl | ⟨k, rfl⟩
  · decide
  · have hk : (Machine.temporaryName tokensName k).toList.take 2 = ['.', 'o'] := by
      simp only [Machine.temporaryName, String.toList_append]
      rfl
    rintro ⟨own, ho, heq | heq⟩ <;> rw [heq] at hk
    · exact (start own ho).1 hk
    · exact (start own ho).2 hk

theorem not_isReserved_marker : Tree.IsFileName "lock-cli-session.json" ∧
    ¬ IsReserved "lock-cli-session.json" :=
  ⟨⟨by decide, by decide⟩, by decide⟩

variable {folder : Path} {place : Location} {machine after : Machine}

/-- The order stays where only names were touched that are not reserved. -/
theorem Orderly.of_changedOnly (h : Orderly folder place machine) (g : Ground after folder place)
    (only : ChangedOnly place (¬ IsReserved ·) machine after) : Orderly folder place after := by
  refine ⟨g, fun own ho => ⟨?_, fun mode => ?_⟩⟩
  · rw [only.under (not_not.mpr (isReserved_temporary ho))]
    exact (h.writable own ho).free
  · rw [only.under (not_not.mpr (isReserved_of_mem ho))]
    exact (h.writable own ho).plain mode

/-- The order stays where one of the files was written and can still be written. -/
theorem Orderly.of_written (h : Orderly folder place machine) (g : Ground after folder place)
    {name : String} (hn : name ∈ ownNames) (only : ChangedOnly place (· = name) machine after)
    (writable : Record.Writable after place name) : Orderly folder place after := by
  refine ⟨g, fun own ho => ?_⟩
  by_cases heq : own = name
  · rw [heq]
    exact writable
  · have hne : Machine.temporaryName own 0 ≠ name := by
      intro ht
      exact temporaryName_not_mem own ho (ht ▸ hn)
    refine ⟨?_, fun mode => ?_⟩
    · rw [only.under hne]
      exact (h.writable own ho).free
    · rw [only.under heq]
      exact (h.writable own ho).plain mode

theorem Orderly.of_touched (h : Orderly folder place machine) (g : Ground after folder place)
    {name : String} (hn : name ∈ ownNames) (t : Record.Touched place name machine after) :
    Orderly folder place after := h.of_written g hn t.only t.writable

theorem Orderly.of_empty (g : Ground machine folder place)
    (empty : ∀ name, machine.under place name = none) : Orderly folder place machine := by
  refine ⟨g, fun own _ => ⟨empty _, fun mode h => ?_⟩⟩
  rw [empty] at h
  nomatch h

end Keeper

/-- That an operation keeps the order of a keeper's folder and leaves the index as it is. -/
def Action.SparesIndex {α : Type} (folder : Path) (place : Location) (action : Action α) : Prop :=
  ∀ machine, Keeper.Orderly folder place machine →
    Keeper.Orderly folder place (action.exec machine).2 ∧
      (action.exec machine).2.under place Keeper.indexName = machine.under place Keeper.indexName

namespace Action.SparesIndex

variable {α β : Type} {folder : Path} {place : Location}

theorem of_confined {action : Action α}
    (h : action.Confined folder place (¬ Keeper.IsReserved ·)) : action.SparesIndex folder place := by
  intro machine o
  have only := h machine o.ground
  refine ⟨o.of_changedOnly (o.ground.exec rfl only) only, only.under (not_not.mpr ?_)⟩
  exact Keeper.isReserved_of_mem (by decide)

theorem of_passive {action : Action α} (h : action.IsPassive) : action.SparesIndex folder place :=
  of_confined (.of_passive h)

theorem pure (a : α) : (Pure.pure a : Action α).SparesIndex folder place := of_passive (.pure a)

theorem log (level : Level) (channel : Channel) (message : String) :
    (Action.log level channel message).SparesIndex folder place := of_passive (.log _ _ _)

theorem of_touched {action : Action α} {name : String} (hn : name ∈ Keeper.ownNames)
    (hi : name ≠ Keeper.indexName)
    (h : ∀ machine, Keeper.Orderly folder place machine →
      Record.Touched place name machine (action.exec machine).2) :
    action.SparesIndex folder place := by
  intro machine o
  have t := h machine o
  exact ⟨o.of_touched (o.ground.exec rfl t.only) hn t, t.only.under (Ne.symm hi)⟩

theorem bind {x : Action α} {f : α → Action β} (hx : x.SparesIndex folder place)
    (hf : ∀ a, (f a).SparesIndex folder place) : (x >>= f).SparesIndex folder place := by
  intro machine o
  have h := hx machine o
  rw [exec_bind]
  rcases he : x.exec machine with ⟨_ | a, after⟩ <;> rw [he] at h
  · exact h
  · have k := hf a after h.1
    exact ⟨k.1, k.2.trans h.2⟩

end Action.SparesIndex

/-- That nothing a backend does harms the index. -/
structure Secret.Backend.SparesIndex (folder : Path) (place : Location) (secrets : Backend) :
    Prop where
  get? : ∀ service account, (secrets.get? service account).SparesIndex folder place
  put : ∀ service account secret, (secrets.put service account secret).SparesIndex folder place
  remove : ∀ service account, (secrets.remove service account).SparesIndex folder place

variable [Runtime]

namespace Secret

variable {folder : Path} {place : Location}

theorem Vault.sparesIndex : (Backend.ofVault (.inFolder folder)).SparesIndex folder place := by
  have hn : Vault.fileName ∈ Keeper.ownNames := by decide
  have hi : Vault.fileName ≠ Keeper.indexName := by decide
  have hr := Keeper.isRecordName_of_mem _ hn
  have writes (next : Assoc Text Json → Action Unit) (h : ∀ entries,
      (∃ entries', next entries = Record.Store.replace ⟨folder.child Vault.fileName⟩ entries') ∨
        next entries = pure ()) :
      (Record.Store.entries ⟨folder.child Vault.fileName⟩ >>= next).SparesIndex folder place :=
    .of_touched hn hi fun machine o =>
      Record.Store.touched_of_entries o.ground hr (o.writable _ hn) next h
  refine ⟨fun service account => ?_, fun service account secret => ?_, fun service account => ?_⟩
  · exact .bind (.of_passive (Record.Store.entries_passive _)) fun entries => .pure _
  · exact writes _ fun entries => Or.inl ⟨_, rfl⟩
  · refine writes _ fun entries => ?_
    split
    · exact Or.inr rfl
    · split_ifs
      · exact Or.inl ⟨_, rfl⟩
      · exact Or.inr rfl

omit [Runtime] in
/-- The keychain of the platform has no files at all. -/
theorem Backend.platform_sparesIndex : Backend.platform.SparesIndex folder place := by
  have tree (request : Request) (h : ∀ machine, (machine.answer request).2.tree = machine.tree) :
      (Action.ask request).SparesIndex folder place :=
    .of_confined fun machine _ => .of_tree (h machine)
  refine ⟨fun service account => ?_, fun service account secret => ?_, fun service account => ?_⟩
  · exact tree _ fun _ => rfl
  · exact tree _ fun _ => rfl
  · refine .bind (tree _ fun _ => rfl) fun wasThere => ?_
    split
    · exact .log _ _ _
    · exact .pure _

end Secret

end SessionKeeper
