import SessionKeeper.Lock.Basic
import SessionKeeper.Proofs.Script.Exec

/-!
# How operations end

A statement about an operation tells of its outcome together with what it leaves. `Ends`
says that such a statement holds after a run, and the statement about a sequence follows
from those about its parts. A section under a lock ends as the section does, between the
taking of the lock and its return.
-/
namespace SessionKeeper

/-- Where an operation on sessions runs: with the OAuth client made so far, on a machine. -/
structure Scene where
  client : Option OAuth.Client
  machine : Machine

/-- That an operation ends on a machine as told. -/
def Action.Ends {α : Type} (action : Action α) (machine : Machine)
    (P : Except Failure α → Machine → Prop) : Prop :=
  P (action.exec machine).1 (action.exec machine).2

/-- That an operation on sessions ends in a scene as told. -/
def SessionAction.Ends {α : Type} (action : SessionAction α) (scene : Scene)
    (P : Except Failure α → Scene → Prop) : Prop :=
  P (action.exec scene.client scene.machine).1 ⟨(action.exec scene.client scene.machine).2.1,
    (action.exec scene.client scene.machine).2.2⟩

namespace Action.Ends

variable {α β : Type} {machine : Machine} {P Q : Except Failure α → Machine → Prop}

theorem mono {x : Action α} (h : x.Ends machine P)
    (imp : ∀ outcome after, P outcome after → Q outcome after) : x.Ends machine Q :=
  imp _ _ h

theorem of_exec {x : Action α} {outcome : Except Failure α} {after : Machine}
    (h : x.exec machine = (outcome, after)) (ht : P outcome after) : x.Ends machine P := by
  unfold Ends
  rw [h]
  exact ht

/-- A sequence ends as its second part does, or fails as its first part does. -/
theorem bind {x : Action α} {f : α → Action β} {R : Except Failure β → Machine → Prop}
    (hx : x.Ends machine P) (ok : ∀ a after, P (.ok a) after → (f a).Ends after R)
    (error : ∀ failure after, P (.error failure) after → R (.error failure) after) :
    (x >>= f).Ends machine R := by
  unfold Ends at hx ⊢
  rw [exec_bind]
  rcases he : x.exec machine with ⟨failure | a, after⟩ <;> rw [he] at hx
  · exact error failure after hx
  · exact ok a after hx

end Action.Ends

namespace SessionAction.Ends

variable {α β : Type} {scene : Scene} {P Q : Except Failure α → Scene → Prop}

theorem pure {a : α} (h : P (.ok a) scene) : (Pure.pure a : SessionAction α).Ends scene P := h

theorem throw {failure : Failure} (h : P (.error failure) scene) :
    (MonadExcept.throw failure : SessionAction α).Ends scene P := h

theorem mono {x : SessionAction α} (h : x.Ends scene P)
    (imp : ∀ outcome after, P outcome after → Q outcome after) : x.Ends scene Q :=
  imp _ _ h

/-- Two statements about one operation. -/
theorem and {x : SessionAction α} (hp : x.Ends scene P) (hq : x.Ends scene Q) :
    x.Ends scene fun outcome after => P outcome after ∧ Q outcome after := ⟨hp, hq⟩

theorem lift {x : Action α}
    (h : x.Ends scene.machine fun outcome after => P outcome ⟨scene.client, after⟩) :
    (liftM x : SessionAction α).Ends scene P := by
  unfold SessionAction.Ends
  rw [exec_lift]
  exact h

/-- A sequence ends as its second part does, or fails as its first part does. -/
theorem bind {x : SessionAction α} {f : α → SessionAction β}
    {R : Except Failure β → Scene → Prop} (hx : x.Ends scene P)
    (ok : ∀ a after, P (.ok a) after → (f a).Ends after R)
    (error : ∀ failure after, P (.error failure) after → R (.error failure) after) :
    (x >>= f).Ends scene R := by
  unfold SessionAction.Ends at hx ⊢
  rw [exec_bind]
  rcases he : x.exec scene.client scene.machine with ⟨failure | a, later, after⟩ <;> rw [he] at hx
  · exact error failure ⟨later, after⟩ hx
  · exact ok a ⟨later, after⟩ hx

/-- A sequence whose first part returns ends as its second part does. -/
theorem bind_ok {x : SessionAction α} {f : α → SessionAction β} {a : α} {S : Scene → Prop}
    {R : Except Failure β → Scene → Prop}
    (hx : x.Ends scene fun outcome after => outcome = .ok a ∧ S after)
    (hf : ∀ after, S after → (f a).Ends after R) : (x >>= f).Ends scene R :=
  .bind hx (fun _ after ⟨ho, hs⟩ => Except.ok.inj ho ▸ hf after hs) fun _ _ h => nomatch h.1

/-- A sequence whose first part returns something goes on with it. -/
theorem bind_returned {x : SessionAction α} {f : α → SessionAction β} {S : α → Scene → Prop}
    {R : Except Failure β → Scene → Prop}
    (hx : x.Ends scene fun outcome after => ∃ a, outcome = .ok a ∧ S a after)
    (hf : ∀ a after, S a after → (f a).Ends after R) : (x >>= f).Ends scene R := by
  refine .bind hx (fun a after h => ?_) fun failure after h => ?_
  · obtain ⟨b, same, hs⟩ := h
    exact hf a after (Except.ok.inj same ▸ hs)
  · obtain ⟨b, same, -⟩ := h
    cases same

/-- A sequence whose first part fails fails likewise. -/
theorem bind_failed {x : SessionAction α} {f : α → SessionAction β} {failure : Failure}
    {S : Scene → Prop}
    (hx : x.Ends scene fun outcome after => outcome = .error failure ∧ S after) :
    (x >>= f).Ends scene fun outcome after => outcome = .error failure ∧ S after := by
  refine .bind hx (fun a after h => ?_) fun other after h => ⟨?_, h.2⟩
  · cases h.1
  · rw [Except.error.inj h.1]

/-- What follows a failure does not run. -/
theorem throw_bind {f : α → SessionAction β} {R : Except Failure β → Scene → Prop}
    {failure : Failure} (h : R (.error failure) scene) :
    ((MonadExcept.throw failure : SessionAction α) >>= f).Ends scene R := by
  unfold SessionAction.Ends
  rw [exec_bind, exec_throw]
  exact h

theorem tryCatch {x : SessionAction α} {handle : Failure → SessionAction α}
    (hx : x.Ends scene P) (ok : ∀ a after, P (.ok a) after → Q (.ok a) after)
    (error : ∀ failure after, P (.error failure) after → (handle failure).Ends after Q) :
    (MonadExcept.tryCatch x handle : SessionAction α).Ends scene Q := by
  unfold SessionAction.Ends at hx ⊢
  rw [exec_tryCatch]
  rcases he : x.exec scene.client scene.machine with ⟨failure | a, later, after⟩ <;> rw [he] at hx
  · exact error failure ⟨later, after⟩ hx
  · exact ok a ⟨later, after⟩ hx

theorem tryCatch_returned {x : SessionAction α} {handle : Failure → SessionAction α}
    {S : α → Scene → Prop}
    (hx : x.Ends scene fun outcome after => ∃ a, outcome = .ok a ∧ S a after) :
    (MonadExcept.tryCatch x handle : SessionAction α).Ends scene fun outcome after =>
      ∃ a, outcome = .ok a ∧ S a after := by
  refine tryCatch hx (fun _ _ h => h) fun failure after h => ?_
  obtain ⟨a, same, -⟩ := h
  cases same

end SessionAction.Ends

/-- The outcome of a section under a lock: its own unless the lock cannot be given back. -/
def Lock.settle {α : Type} (released : Except Failure Unit) (outcome : Except Failure α) :
    Except Failure α :=
  match released with
  | .ok () => outcome
  | .error failure => .error failure

variable [Runtime]

namespace Action

variable {α : Type}

omit [Runtime] in
theorem exec_tryCatch (x : Action α) (handle : Failure → Action α) (machine : Machine) :
    (tryCatch x handle : Action α).exec machine = match x.exec machine with
      | (.ok a, after) => (.ok a, after)
      | (.error failure, after) => (handle failure).exec after := by
  have h : (tryCatch x handle : Action α).run = x.run.bind fun outcome => match outcome with
      | .ok a => .done (.ok a)
      | .error failure => (handle failure).run := by
    show x.run.bind _ = _
    congr 1
    funext outcome
    cases outcome <;> rfl
  rw [exec, h, Script.run_bind, exec]
  rcases x.run.run machine with ⟨_ | _, after⟩ <;> rfl

/-- A section under a lock runs between the taking of the lock and its return. -/
theorem exec_holding (lock : Lock) (key : Text) (body : Action α) (machine : Machine) :
    (lock.holding key body).exec machine =
      match (lock.acquire key).exec machine with
      | (.error failure, after) => (.error failure, after)
      | (.ok marker, between) =>
        let ended := body.exec between
        let released := (lock.release marker).exec ended.2
        (Lock.settle released.1 ended.1, released.2) := by
  have h : (liftM (lock.acquire key) : Action Lock.Marker) = lock.acquire key := rfl
  rw [Lock.holding, h, exec_bind]
  rcases (lock.acquire key).exec machine with ⟨failure | marker, between⟩
  · rfl
  · dsimp only
    rcases he : body.exec between with ⟨outcome, after⟩
    have caught : (tryCatch (do return .ok (← body)) fun failure => pure (.error failure) :
        Action (Except Failure α)).exec between = (.ok outcome, after) := by
      rw [exec_tryCatch, exec_bind, he]
      cases outcome <;> rfl
    have hr : (liftM (lock.release marker) : Action Unit) = lock.release marker := rfl
    rw [exec_bind_ok caught, hr, exec_bind]
    rcases (lock.release marker).exec after with ⟨failure | _, last⟩
    · rfl
    · cases outcome <;> rfl

/-- A section under a lock ends as told if the section does, once the lock is given back. -/
theorem Ends.holding {lock : Lock} {key : Text} {body : Action α} {machine : Machine}
    {P : Except Failure α → Machine → Prop} {T : Lock.Marker → Machine → Prop}
    (acquired : (lock.acquire key).Ends machine fun outcome after => match outcome with
      | .ok marker => T marker after
      | .error failure => P (.error failure) after)
    (within : ∀ marker between, T marker between → body.Ends between fun outcome later =>
      (lock.release marker).Ends later fun released after =>
        P (Lock.settle released outcome) after) :
    (lock.holding key body).Ends machine P := by
  unfold Ends
  rw [exec_holding]
  unfold Ends at acquired
  rcases he : (lock.acquire key).exec machine with ⟨failure | marker, between⟩ <;>
    rw [he] at acquired
  · exact acquired
  · exact within marker between acquired

end Action

namespace SessionAction

variable {α : Type}

/-- A section under a lock runs between the taking of the lock and its return. -/
theorem exec_holding (lock : Lock) (key : Text) (body : SessionAction α)
    (client : Option OAuth.Client) (machine : Machine) :
    (lock.holding key body).exec client machine =
      match (lock.acquire key).exec machine with
      | (.error failure, after) => (.error failure, client, after)
      | (.ok marker, between) =>
        let ended := body.exec client between
        let released := (lock.release marker).exec ended.2.2
        (Lock.settle released.1 ended.1, ended.2.1, released.2) := by
  rw [Lock.holding, exec_bind, exec_lift]
  rcases (lock.acquire key).exec machine with ⟨failure | marker, between⟩
  · rfl
  · dsimp only
    rcases he : body.exec client between with ⟨outcome, later, after⟩
    have caught : (tryCatch (do return .ok (← body)) fun failure => pure (.error failure) :
        SessionAction (Except Failure α)).exec client between = (.ok outcome, later, after) := by
      rw [exec_tryCatch, exec_bind, he]
      cases outcome <;> rfl
    rw [exec_bind_ok caught, exec_bind, exec_lift]
    rcases (lock.release marker).exec after with ⟨failure | _, last⟩
    · rfl
    · cases outcome <;> rfl

/-- A section under a lock ends as told if the section does, once the lock is given back. -/
theorem Ends.holding {lock : Lock} {key : Text} {body : SessionAction α} {scene : Scene}
    {P : Except Failure α → Scene → Prop} {T : Lock.Marker → Machine → Prop}
    (acquired : (lock.acquire key).Ends scene.machine fun outcome after => match outcome with
      | .ok marker => T marker after
      | .error failure => P (.error failure) ⟨scene.client, after⟩)
    (within : ∀ marker between, T marker between →
      body.Ends ⟨scene.client, between⟩ fun outcome later =>
        (lock.release marker).Ends later.machine fun released after =>
          P (Lock.settle released outcome) ⟨later.client, after⟩) :
    (lock.holding key body).Ends scene P := by
  unfold Ends
  rw [exec_holding]
  unfold Action.Ends at acquired
  rcases he : (lock.acquire key).exec scene.machine with ⟨failure | marker, between⟩ <;>
    rw [he] at acquired
  · exact acquired
  · exact within marker between acquired

/-- A section that has nothing to do with the OAuth client ends as it does next to one. -/
theorem Ends.holding_alone {lock : Lock} {key : Text} {body : Action α} (scene : Scene)
    {P : Except Failure α → Machine → Prop}
    (h : (lock.holding key (liftM body) : SessionAction α).Ends scene fun outcome after =>
      P outcome after.machine) : (lock.holding key body : Action α).Ends scene.machine P := by
  unfold Ends at h
  unfold Action.Ends
  rw [exec_holding] at h
  rw [Action.exec_holding]
  rcases he : (lock.acquire key).exec scene.machine with ⟨failure | marker, between⟩ <;>
    simp only [he, exec_lift] at h ⊢
  · exact h
  · exact h

end SessionAction

end SessionKeeper
