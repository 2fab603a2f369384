import SessionKeeper.Proofs.Disk.Ground
import SessionKeeper.Proofs.Script.Ends

/-!
# What operations return

Of an operation that may meet anything it is often enough to know what holds if it returns.
`Yields` says that, and a failure promises nothing. What a sequence yields follows from what
its parts yield; a section under a lock yields what it yields between the taking of the lock
and its return.
-/
namespace SessionKeeper

/-- That no more was done than looking: the files and the keychain are the same, and all that no
operation changes. -/
structure Machine.Quiet (before after : Machine) : Prop where
  circumstances : before.SameCircumstances after
  belongings : after.belongings = before.belongings

namespace Machine.Quiet

variable {before between after : Machine}

theorem refl (machine : Machine) : machine.Quiet machine := ⟨.refl machine, rfl⟩

theorem trans (h : before.Quiet between) (k : between.Quiet after) : before.Quiet after :=
  ⟨h.circumstances.trans k.circumstances, k.belongings.trans h.belongings⟩

theorem symm (h : before.Quiet after) : after.Quiet before :=
  ⟨⟨h.circumstances.directory.symm, h.circumstances.now.symm, h.circumstances.processId.symm,
    h.circumstances.environment.symm, h.circumstances.homes.symm, h.circumstances.offer.symm,
    h.circumstances.keyserver.symm⟩, h.belongings.symm⟩

theorem tree (h : before.Quiet after) : after.tree = before.tree := congrArg Prod.fst h.belongings

theorem keychain (h : before.Quiet after) : after.keychain = before.keychain :=
  congrArg Prod.snd h.belongings

/-- No file is another one. -/
theorem under (h : before.Quiet after) (place : Location) (name : String) :
    after.under place name = before.under place name := by
  rw [Machine.under, Machine.under, h.tree]

theorem of_passive {α : Type} {action : Action α} (h : action.IsPassive) (machine : Machine) :
    machine.Quiet (action.exec machine).2 := ⟨.of_exec action machine, h machine⟩

end Machine.Quiet

theorem Ground.of_quiet {machine after : Machine} {folder : Path} {place : Location}
    (g : Ground machine folder place) (quiet : machine.Quiet after) : Ground after folder place := by
  have only : ChangedOnly place (fun _ => False) machine after := .of_tree quiet.tree
  exact g.kept only quiet.circumstances (quiet.tree ▸ g.numbered)

/-- What operations for the members of a list return, each of which leaves what the next one needs.
The members may stand for those of another list, and then the results do, too. -/
theorem Action.exec_mapM {α β γ : Type} {f : β → Action γ} {xs : List α} {ys : List β}
    {I : Machine → Prop} {S : α → β → Prop} {R : α → γ → Prop} (stand : List.Forall₂ S xs ys)
    (step : ∀ x ∈ xs, ∀ y, S x y → ∀ machine, I machine →
      ∃ z after, (f y).exec machine = (.ok z, after) ∧ R x z ∧ I after)
    (machine : Machine) (h : I machine) : ∃ zs after, (ys.mapM f).exec machine = (.ok zs, after) ∧
      List.Forall₂ R xs zs ∧ I after := by
  induction stand generalizing machine with
  | nil => exact ⟨[], machine, rfl, .nil, h⟩
  | @cons x y xs ys stands _ ih =>
    obtain ⟨z, between, first, told, left⟩ := step x List.mem_cons_self y stands machine h
    obtain ⟨zs, after, others, all, last⟩ :=
      ih (fun x hx => step x (List.mem_cons_of_mem _ hx)) between left
    refine ⟨z :: zs, after, ?_, .cons told all, last⟩
    rw [List.mapM_cons, exec_bind_ok first, exec_bind_ok others]
    rfl

/-- In lists that agree member by member each member has one that it agrees with. -/
theorem exists_of_forall₂ {α β : Type} {R : α → β → Prop} {xs : List α} {ys : List β}
    (h : List.Forall₂ R xs ys) {x : α} (there : x ∈ xs) : ∃ y ∈ ys, R x y := by
  induction h with
  | nil => cases there
  | @cons a b _ _ told _ ih =>
    rcases List.mem_cons.mp there with rfl | later
    · exact ⟨b, List.mem_cons_self, told⟩
    · obtain ⟨y, hy, tells⟩ := ih later
      exact ⟨y, List.mem_cons_of_mem b hy, tells⟩

/-- Doing something for the members of a list succeeds when it does for each of them. -/
theorem mapM_eq_ok {ε α β : Type} {f : α → Except ε β} {xs : List α} {ys : List β} :
    xs.mapM f = .ok ys ↔ List.Forall₂ (fun x y => f x = .ok y) xs ys := by
  induction xs generalizing ys with
  | nil =>
    rw [List.forall₂_nil_left_iff]
    exact ⟨fun h => (Except.ok.inj h).symm, fun h => h ▸ rfl⟩
  | cons x xs ih =>
    rw [List.mapM_cons, List.forall₂_cons_left_iff]
    constructor
    · intro h
      obtain ⟨y, first, h⟩ := exists_of_bind_ok h
      obtain ⟨rest, others, h⟩ := exists_of_bind_ok h
      exact ⟨y, rest, first, ih.mp others, (Except.ok.inj h).symm⟩
    · rintro ⟨y, rest, first, others, rfl⟩
      rw [first, ih.mpr others]
      rfl

/-- It fails as it does for one of them. -/
theorem exists_of_mapM_error {ε α β : Type} {f : α → Except ε β} {xs : List α} {error : ε}
    (h : xs.mapM f = .error error) : ∃ x ∈ xs, f x = .error error := by
  induction xs with
  | nil => cases h
  | cons x xs ih =>
    rw [List.mapM_cons] at h
    rcases first : f x with failure | y <;> rw [first] at h
    · obtain rfl : failure = error := Except.error.inj h
      exact ⟨x, List.mem_cons_self, first⟩
    · rcases others : xs.mapM f with failure | ys <;> rw [others] at h
      · obtain rfl : failure = error := Except.error.inj h
        obtain ⟨other, there, failed⟩ := ih others
        exact ⟨other, List.mem_cons_of_mem x there, failed⟩
      · cases h

/-- How operations for the members of a list end that each end as told by the member. -/
theorem Action.exec_mapM_told {α β : Type} {f : α → Action β} {g : α → Except Failure β}
    {I : Machine → Prop} (step : ∀ a machine, I machine →
      ∃ after, (f a).exec machine = (g a, after) ∧ I after)
    (xs : List α) (machine : Machine) (h : I machine) :
    ∃ after, (xs.mapM f).exec machine = (xs.mapM g, after) ∧ I after := by
  induction xs generalizing machine with
  | nil => exact ⟨machine, rfl, h⟩
  | cons a xs ih =>
    obtain ⟨between, first, left⟩ := step a machine h
    rw [List.mapM_cons, List.mapM_cons]
    rcases told : g a with failure | b <;> rw [told] at first
    · exact ⟨between, exec_bind_error first, left⟩
    · obtain ⟨after, others, last⟩ := ih between left
      rw [exec_bind_ok first]
      rcases all : xs.mapM g with failure | bs <;> rw [all] at others
      · exact ⟨after, exec_bind_error others, last⟩
      · exact ⟨after, (exec_bind_ok others).trans rfl, last⟩

/-- That what an operation returns, if it returns, is as told together with what it leaves. -/
def Action.Yields {α : Type} (action : Action α) (machine : Machine) (Q : α → Machine → Prop) :
    Prop :=
  ∀ a after, action.exec machine = (.ok a, after) → Q a after

/-- That what an operation on sessions returns, if it returns, is as told. -/
def SessionAction.Yields {α : Type} (action : SessionAction α) (scene : Scene)
    (Q : α → Scene → Prop) : Prop :=
  ∀ a client after, action.exec scene.client scene.machine = (.ok a, client, after) →
    Q a ⟨client, after⟩

namespace Action.Yields

variable {α β : Type} {machine : Machine} {P Q : α → Machine → Prop}

theorem mono {x : Action α} (h : x.Yields machine P) (imp : ∀ a after, P a after → Q a after) :
    x.Yields machine Q := fun a after he => imp a after (h a after he)

theorem of_exec {x : Action α} {outcome : Except Failure α} {after : Machine}
    (h : x.exec machine = (outcome, after)) (hq : ∀ a, outcome = .ok a → Q a after) :
    x.Yields machine Q := by
  intro a last he
  rw [h] at he
  obtain ⟨ho, rfl⟩ := Prod.mk.inj he
  exact hq a ho

theorem pure {a : α} (h : Q a machine) : (Pure.pure a : Action α).Yields machine Q :=
  of_exec rfl fun _ ho => Except.ok.inj ho ▸ h

theorem throw {failure : Failure} :
    (MonadExcept.throw failure : Action α).Yields machine Q := of_exec rfl nofun

theorem of_passive {x : Action α} (h : x.IsPassive) :
    x.Yields machine fun _ after => machine.Quiet after :=
  of_exec rfl fun _ _ => .of_passive h machine

/-- A sequence yields what its second part yields after the first one. -/
theorem bind {x : Action α} {f : α → Action β} {R : β → Machine → Prop}
    (hx : x.Yields machine P) (hf : ∀ a between, P a between → (f a).Yields between R) :
    (x >>= f).Yields machine R := by
  intro b after h
  rw [exec_bind] at h
  rcases he : x.exec machine with ⟨failure | a, between⟩ <;> rw [he] at h
  · nomatch (Prod.mk.inj h).1
  · exact hf a between (hx a between he) b after h

end Action.Yields

namespace SessionAction.Yields

variable {α β : Type} {scene : Scene} {P Q : α → Scene → Prop}

theorem mono {x : SessionAction α} (h : x.Yields scene P)
    (imp : ∀ a after, P a after → Q a after) : x.Yields scene Q :=
  fun a client after he => imp a ⟨client, after⟩ (h a client after he)

theorem of_ends {x : SessionAction α}
    (h : x.Ends scene fun outcome after => ∀ a, outcome = .ok a → Q a after) :
    x.Yields scene Q := by
  intro a client after he
  unfold SessionAction.Ends at h
  rw [he] at h
  exact h a rfl

theorem ends {x : SessionAction α} (h : x.Yields scene Q) :
    x.Ends scene fun outcome after => ∀ a, outcome = .ok a → Q a after :=
  fun a ho => h a _ _ (Prod.ext ho rfl)

theorem pure {a : α} (h : Q a scene) : (Pure.pure a : SessionAction α).Yields scene Q := by
  rintro _ client after ⟨⟩
  exact h

theorem lift {x : Action α}
    (h : x.Yields scene.machine fun a after => Q a ⟨scene.client, after⟩) :
    (liftM x : SessionAction α).Yields scene Q := by
  intro a client after he
  rw [exec_lift] at he
  obtain ⟨ho, hrest⟩ := Prod.mk.inj he
  obtain ⟨rfl, rfl⟩ := Prod.mk.inj hrest
  exact h a _ (Prod.ext ho rfl)

/-- A sequence yields what its second part yields after the first one. -/
theorem bind {x : SessionAction α} {f : α → SessionAction β} {R : β → Scene → Prop}
    (hx : x.Yields scene P) (hf : ∀ a between, P a between → (f a).Yields between R) :
    (x >>= f).Yields scene R := by
  intro b client after h
  rw [exec_bind] at h
  rcases he : x.exec scene.client scene.machine with ⟨failure | a, later, between⟩ <;> rw [he] at h
  · nomatch (Prod.mk.inj h).1
  · exact hf a ⟨later, between⟩ (hx a later between he) b client after h

/-- What follows a failure does not run. -/
theorem throw_bind {f : α → SessionAction β} {R : β → Scene → Prop} {failure : Failure} :
    ((MonadExcept.throw failure : SessionAction α) >>= f).Yields scene R := by
  intro b client after h
  rw [exec_bind, exec_throw] at h
  nomatch (Prod.mk.inj h).1

variable [Runtime]

/-- A section under a lock yields what it yields before the lock is given back. -/
theorem holding {lock : Lock} {key : Text} {body : SessionAction α}
    {T : Lock.Marker → Machine → Prop} (acquired : (lock.acquire key).Yields scene.machine T)
    (within : ∀ marker between, T marker between →
      body.Yields ⟨scene.client, between⟩ fun a later =>
        (lock.release marker).Yields later.machine fun _ after => Q a ⟨later.client, after⟩) :
    (lock.holding key body).Yields scene Q := by
  intro a client after h
  rw [exec_holding] at h
  rcases he : (lock.acquire key).exec scene.machine with ⟨failure | marker, between⟩ <;> rw [he] at h
  · nomatch (Prod.mk.inj h).1
  · rcases hb : body.exec scene.client between with ⟨outcome, client', later⟩
    simp only [hb] at h
    obtain ⟨settled, hrest⟩ := Prod.mk.inj h
    obtain ⟨rfl, last⟩ := Prod.mk.inj hrest
    rcases hr : (lock.release marker).exec later with ⟨failure | _, final⟩ <;>
      rw [hr] at settled last
    · nomatch settled
    · obtain rfl : outcome = .ok a := settled
      obtain rfl : final = after := last
      exact within marker between (acquired marker between he) a client' later hb () final hr

end SessionAction.Yields

end SessionKeeper
