import SessionKeeper.Proofs.Script.Likeness

/-!
# What operations pass through

An operation that is cut short leaves the machine as it was between two requests. `Passes` says
that a statement holds of every machine that an operation passes through, and what a sequence
passes through follows from its parts: what the second one meets is what the first one left. An
operation that passes through nothing but machines of a kind, started on one of that kind, also
ends on one.
-/
namespace SessionKeeper

namespace Script

variable {α β : Type}

/-- That all machines that a script passes through are as told. -/
def Passes (script : Script α) (machine : Machine) (J : Machine → Prop) : Prop :=
  ∀ m ∈ script.trail machine, J m

namespace Passes

variable {machine : Machine} {J : Machine → Prop}

theorem done (a : α) : (Script.done a).Passes machine J := List.forall_mem_nil _

theorem ask {request : Request} {next : request.Answer → Script α}
    (now : J (machine.answer request).2)
    (rest : (next (machine.answer request).1).Passes (machine.answer request).2 J) :
    (Script.ask request next).Passes machine J := List.forall_mem_cons.mpr ⟨now, rest⟩

theorem bind {x : Script α} {f : α → Script β} (hx : x.Passes machine J)
    (hf : ∀ a after, x.run machine = (a, after) → (f a).Passes after J) :
    (x.bind f).Passes machine J := by
  intro m hm
  rw [trail_bind] at hm
  exact (List.mem_append.mp hm).elim (hx m) (hf _ _ rfl m)

/-- The machine that a script leaves is the one it was started on or the last one passed. -/
theorem run {script : Script α} (h : script.Passes machine J) (start : J machine) :
    J (script.run machine).2 := by
  induction script generalizing machine with
  | done a => exact start
  | ask request next ih =>
    obtain ⟨now, rest⟩ := List.forall_mem_cons.mp h
    exact ih _ rest now

end Passes

end Script

/-- That all machines that an operation passes through are as told. -/
def Action.Passes {α : Type} (action : Action α) (machine : Machine) (J : Machine → Prop) : Prop :=
  action.run.Passes machine J

/-- That all machines that an operation on sessions passes through are as told. -/
def SessionAction.Passes {α : Type} (action : SessionAction α) (scene : Scene)
    (J : Machine → Prop) : Prop := (action.run.run scene.client).Passes scene.machine J

namespace Action.Passes

variable {α β : Type} {machine : Machine} {J K : Machine → Prop}

theorem pure (a : α) : (Pure.pure a : Action α).Passes machine J := Script.Passes.done _

theorem throw (failure : Failure) :
    (MonadExcept.throw failure : Action α).Passes machine J := Script.Passes.done _

theorem ask {request : Request} (h : J (machine.answer request).2) :
    (Action.ask request).Passes machine J := Script.Passes.ask h (.done _)

theorem mono {x : Action α} (h : x.Passes machine J) (imp : ∀ m, J m → K m) :
    x.Passes machine K := fun m hm => imp m (h m hm)

/-- A sequence passes through what its first part does and, if that returns, what the second
part does from there on. -/
theorem bind {x : Action α} {f : α → Action β} (hx : x.Passes machine J)
    (hf : ∀ a after, x.exec machine = (.ok a, after) → (f a).Passes after J) :
    (x >>= f).Passes machine J := by
  refine Script.Passes.bind hx fun outcome after he => ?_
  cases outcome with
  | error failure => exact Script.Passes.done _
  | ok a => exact hf a after he

/-- After a first part that returns, the second one has only to pass from there on. -/
theorem bind_step {x : Action α} {f : α → Action β} {a : α} {after : Machine}
    (hx : x.Passes machine J) (he : x.exec machine = (.ok a, after)) (hf : (f a).Passes after J) :
    (x >>= f).Passes machine J := by
  refine bind hx fun b last hb => ?_
  rw [he] at hb
  cases hb
  exact hf

theorem ask_bind {request : Request} {f : request.Answer → Action β} {answer : request.Answer}
    {after : Machine} (h : machine.answer request = (answer, after)) (now : J after)
    (rest : (f answer).Passes after J) : (Action.ask request >>= f).Passes machine J := by
  refine bind_step (.ask ?_) ?_ rest
  · rw [h]
    exact now
  · rw [exec_ask, h]

theorem exec {x : Action α} (h : x.Passes machine J) (start : J machine) :
    J (x.exec machine).2 := Script.Passes.run h start

/-- What follows something that passes through machines of a kind only meets one of that kind. -/
theorem bind_after {x : Action α} {f : α → Action β} (hx : x.Passes machine J) (start : J machine)
    (hf : ∀ a after, J after → (f a).Passes after J) : (x >>= f).Passes machine J := by
  refine bind hx fun a after he => hf a after ?_
  have left := hx.exec start
  rwa [he] at left

theorem tryCatch {x : Action α} {handle : Failure → Action α} (hx : x.Passes machine J)
    (handled : ∀ failure after, x.exec machine = (.error failure, after) →
      (handle failure).Passes after J) :
    (MonadExcept.tryCatch x handle : Action α).Passes machine J := by
  refine Script.Passes.bind hx fun outcome after he => ?_
  cases outcome with
  | error failure => exact handled failure after he
  | ok a => exact Script.Passes.done _

variable [Runtime]

/-- What a section under a lock passes through: the taking of the lock, itself, and the giving
back of the lock. -/
theorem holding {lock : Lock} {key : Text} {body : Action α}
    (acquires : (lock.acquire key).Passes machine J)
    (within : ∀ marker between, (lock.acquire key).exec machine = (.ok marker, between) →
      body.Passes between J ∧ (lock.release marker).Passes (body.exec between).2 J) :
    (lock.holding key body).Passes machine J := by
  refine .bind acquires fun marker between taken => ?_
  obtain ⟨passes, releases⟩ := within marker between taken
  have caught : (MonadExcept.tryCatch (do return .ok (← body))
      fun failure => Pure.pure (.error failure) : Action (Except Failure α)).exec between =
        (.ok (body.exec between).1, (body.exec between).2) := by
    refine (exec_tryCatch _ _ between).trans ?_
    rw [exec_bind]
    rcases body.exec between with ⟨_ | _, _⟩ <;> rfl
  refine .bind (.tryCatch (.bind passes fun _ _ _ => .pure _) fun _ _ _ => .pure _)
    fun outcome later ended => ?_
  obtain ⟨same, rfl⟩ := Prod.mk.inj (caught.symm.trans ended)
  obtain rfl := Except.ok.inj same
  refine .bind releases fun _ last _ => ?_
  split
  · exact .pure _
  · exact .throw _

end Action.Passes

namespace SessionAction.Passes

variable {α β : Type} {scene : Scene} {J K : Machine → Prop}

theorem pure (a : α) : (Pure.pure a : SessionAction α).Passes scene J := Script.Passes.done _

theorem throw (failure : Failure) :
    (MonadExcept.throw failure : SessionAction α).Passes scene J := Script.Passes.done _

theorem mono {x : SessionAction α} (h : x.Passes scene J) (imp : ∀ m, J m → K m) :
    x.Passes scene K := fun m hm => imp m (h m hm)

theorem lift {x : Action α} (h : x.Passes scene.machine J) :
    (liftM x : SessionAction α).Passes scene J := Script.Passes.bind h fun _ _ _ => .done _

/-- A sequence passes through what its first part does and, if that returns, what the second
part does from there on. -/
theorem bind {x : SessionAction α} {f : α → SessionAction β} (hx : x.Passes scene J)
    (hf : ∀ a later after, x.exec scene.client scene.machine = (.ok a, later, after) →
      (f a).Passes ⟨later, after⟩ J) : (x >>= f).Passes scene J := by
  refine Script.Passes.bind hx fun result after he => ?_
  have ended : x.exec scene.client scene.machine = (result.1, result.2, after) :=
    congrArg (fun r => (r.1.1, r.1.2, r.2)) he
  rcases result with ⟨failure | a, later⟩
  · exact Script.Passes.done _
  · exact hf a later after ended

/-- After a first part that ends as told, the second one has only to pass from there on. -/
theorem bind_ends {x : SessionAction α} {f : α → SessionAction β}
    {P : Except Failure α → Scene → Prop} (hx : x.Passes scene J) (ends : x.Ends scene P)
    (hf : ∀ a after, P (.ok a) after → (f a).Passes after J) : (x >>= f).Passes scene J := by
  refine bind hx fun a later after he => hf a _ ?_
  unfold SessionAction.Ends at ends
  rwa [he] at ends

/-- What has nothing to do with the OAuth client leaves it to what follows. -/
theorem bind_lift {x : Action α} {f : α → SessionAction β} (hx : x.Passes scene.machine J)
    (hf : ∀ a after, x.exec scene.machine = (.ok a, after) → (f a).Passes ⟨scene.client, after⟩ J) :
    ((liftM x : SessionAction α) >>= f).Passes scene J := by
  refine bind (lift hx) fun a later after he => ?_
  rw [exec_lift] at he
  obtain ⟨ok, rest⟩ := Prod.mk.inj he
  obtain ⟨rfl, rfl⟩ := Prod.mk.inj rest
  exact hf a _ (Prod.ext ok rfl)

/-- After such a first part that returns, the second one has only to pass from there on. -/
theorem bind_step {x : Action α} {f : α → SessionAction β} {a : α} {after : Machine}
    (hx : x.Passes scene.machine J) (he : x.exec scene.machine = (.ok a, after))
    (hf : (f a).Passes ⟨scene.client, after⟩ J) :
    ((liftM x : SessionAction α) >>= f).Passes scene J := by
  refine bind_lift hx fun b last hb => ?_
  rw [he] at hb
  cases hb
  exact hf

theorem exec {x : SessionAction α} (h : x.Passes scene J) (start : J scene.machine) :
    J (x.exec scene.client scene.machine).2.2 := Script.Passes.run h start

theorem ends {x : SessionAction α} (h : x.Passes scene J) (start : J scene.machine) :
    x.Ends scene fun _ after => J after.machine := h.exec start

/-- What follows something that passes through machines of a kind only meets one of that kind. -/
theorem bind_after {x : SessionAction α} {f : α → SessionAction β} (hx : x.Passes scene J)
    (start : J scene.machine) (hf : ∀ a after, J after.machine → (f a).Passes after J) :
    (x >>= f).Passes scene J :=
  bind_ends hx (hx.ends start) hf

theorem tryCatch {x : SessionAction α} {handle : Failure → SessionAction α} (hx : x.Passes scene J)
    (handled : ∀ failure later after, x.exec scene.client scene.machine =
      (.error failure, later, after) → (handle failure).Passes ⟨later, after⟩ J) :
    (MonadExcept.tryCatch x handle : SessionAction α).Passes scene J := by
  refine Script.Passes.bind hx fun result after he => ?_
  have ended : x.exec scene.client scene.machine = (result.1, result.2, after) :=
    congrArg (fun r => (r.1.1, r.1.2, r.2)) he
  rcases result with ⟨failure | a, later⟩
  · exact handled failure later after ended
  · exact Script.Passes.done _

variable [Runtime]

/-- What a section under a lock passes through: the taking of the lock, itself, and the giving
back of the lock. -/
theorem holding {lock : Lock} {key : Text} {body : SessionAction α}
    (acquires : (lock.acquire key).Passes scene.machine J)
    (within : ∀ marker between, (lock.acquire key).exec scene.machine = (.ok marker, between) →
      body.Passes ⟨scene.client, between⟩ J ∧
        (lock.release marker).Passes (body.exec scene.client between).2.2 J) :
    (lock.holding key body).Passes scene J := by
  refine bind_lift acquires fun marker between taken => ?_
  obtain ⟨passes, releases⟩ := within marker between taken
  have caught : (MonadExcept.tryCatch (do return .ok (← body))
      fun failure => Pure.pure (.error failure) : SessionAction (Except Failure α)).exec
        scene.client between = (.ok (body.exec scene.client between).1,
          (body.exec scene.client between).2) := by
    refine (exec_tryCatch _ _ between).trans ?_
    rw [exec_bind]
    rcases body.exec scene.client between with ⟨_ | _, _, _⟩ <;> rfl
  refine .bind (.tryCatch (.bind passes fun _ _ _ _ => .pure _) fun _ _ _ _ => .pure _)
    fun outcome later after ended => ?_
  obtain ⟨same, left⟩ := Prod.mk.inj (caught.symm.trans ended)
  obtain rfl := Except.ok.inj same
  rw [left] at releases
  refine bind_lift releases fun _ last _ => ?_
  split
  · exact .pure _
  · exact .throw _

end SessionAction.Passes

end SessionKeeper
