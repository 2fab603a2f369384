import SessionKeeper.Proofs.Keeper.Changes
import SessionKeeper.Proofs.Keyserver.Passphrase
import SessionKeeper.Proofs.Script.Yields

/-!
# What an OAuth client leaves as it is

The client is made when it is first needed, and from then on it stays. Whatever is asked of
its maker and of itself, what they keep true of the machine stays true, and the client of the
scene is one of the kind that is expected. Authorizing gives an account session with the
handle and a passphrase that is not empty.
-/
namespace SessionKeeper

namespace Keyserver.Client

variable [Runtime]

theorem fetchPassphrase_yields (client : Client) (token : Option Text) (machine : Machine) :
    (client.fetchPassphrase token).Yields machine fun passphrase after =>
      passphrase ≠ [] ∧ machine.Quiet after := by
  intro passphrase after he
  obtain ⟨outcome, sent, fetches⟩ :=
    Fetches.total client token (machine.keyserver machine.requests)
  obtain ⟨left, same, -⟩ := fetches.exec
  rw [he] at same
  obtain rfl : Except.ok passphrase = outcome := congrArg Prod.fst same
  have quiet := Machine.Quiet.of_passive (client.fetchPassphrase_passive token) machine
  rw [he] at quiet
  exact ⟨fetches.ne_nil, quiet⟩

end Keyserver.Client

namespace Keeper

/-- A scene of which something is true, with a client of a kind, if it has one. -/
structure Attended (J : Machine → Prop) (fits : OAuth.Client → Prop) (scene : Scene) : Prop where
  machine : J scene.machine
  client : ∀ client, scene.client = some client → fits client

variable {keeper : Keeper} {J : Machine → Prop} {fits : OAuth.Client → Prop} {scene : Scene}

/-- What keeps true what is true of the machine keeps it true of the scene. -/
theorem Attended.lift {α : Type} (h : Attended J fits scene) {action : Action α}
    {R : Except Failure α → Machine → Prop} (ends : action.Ends scene.machine R) :
    (liftM action : SessionAction α).Ends scene fun outcome after =>
      Attended (R outcome) fits after :=
  .lift ⟨ends, h.client⟩

/-- The client is one of the kind, whether it was there or had to be made. -/
theorem client_attended
    (makes : ∀ machine, J machine → (keeper.factory keeper.stores).Ends machine
      fun outcome after => J after ∧ ∀ client, outcome = .ok client → fits client)
    (h : Attended J fits scene) :
    keeper.client.Ends scene fun outcome after =>
      Attended J fits after ∧ ∀ client, outcome = .ok client → fits client := by
  obtain ⟨client, machine⟩ := scene
  unfold SessionAction.Ends
  cases client with
  | some client =>
    rw [client_exec_some]
    refine ⟨h, ?_⟩
    rintro _ ⟨⟩
    exact h.client client rfl
  | none =>
    have made := makes machine h.machine
    unfold Action.Ends at made
    rw [client_exec_none]
    rcases he : (keeper.factory keeper.stores).exec machine with ⟨failure | client, after⟩ <;>
      rw [he] at made
    · exact ⟨⟨made.1, h.client⟩, nofun⟩
    · refine ⟨⟨made.1, ?_⟩, ?_⟩ <;> rintro _ ⟨⟩ <;> exact made.2 client rfl

/-- Where one is always made, the client is one of the kind, and asking for it returns. -/
theorem client_returned
    (makes : ∀ machine, J machine → (keeper.factory keeper.stores).Ends machine
      fun outcome after => J after ∧ ∃ client, outcome = .ok client ∧ fits client)
    (h : Attended J fits scene) :
    keeper.client.Ends scene fun outcome after =>
      ∃ client, outcome = .ok client ∧ fits client ∧ Attended J fits after := by
  obtain ⟨client, machine⟩ := scene
  unfold SessionAction.Ends
  cases client with
  | some client =>
    rw [client_exec_some]
    exact ⟨client, rfl, h.client client rfl, h⟩
  | none =>
    have made := makes machine h.machine
    unfold Action.Ends at made
    rw [client_exec_none]
    rcases he : (keeper.factory keeper.stores).exec machine with ⟨outcome, after⟩
    rw [he] at made
    obtain ⟨kept, client, rfl, fitting⟩ := made
    exact ⟨client, rfl, fitting, kept, fun c hc => Option.some.inj hc ▸ fitting⟩

variable [Runtime]

/-- Where a client is always made, dropping the tokens of a subject ends as the client's revoking
them does. -/
theorem dropTokens_returned {subject : Text} {R : Except Failure Unit → Machine → Prop}
    (makes : ∀ machine, J machine → (keeper.factory keeper.stores).Ends machine
      fun outcome after => J after ∧ ∃ client, outcome = .ok client ∧ fits client)
    (revokes : ∀ client, fits client → ∀ machine, J machine → (client.revoke subject).Ends machine R)
    (h : Attended J fits scene) :
    (keeper.dropTokens subject).Ends scene fun outcome after => Attended (R outcome) fits after := by
  refine .bind_returned (S := fun made after => ∃ client, made = some client ∧ fits client ∧
    Attended J fits after) (.tryCatch_returned ?_) fun made between hb => ?_
  · refine .bind_returned (client_returned makes h) fun client between hb => ?_
    exact .pure ⟨some client, rfl, client, rfl, hb⟩
  · obtain ⟨client, rfl, fitting, hb⟩ := hb
    exact hb.lift (revokes client fitting between.machine hb.machine)

omit [Runtime] in
/-- Where it is put up with that no client is configured, a client that is found is one of the
kind. -/
theorem sought_attended
    (makes : ∀ machine, J machine → (keeper.factory keeper.stores).Ends machine
      fun outcome after => J after ∧ ∀ client, outcome = .ok client → fits client)
    (h : Attended J fits scene) :
    (tryCatchThe Failure (do return some (← keeper.client)) (fun
      | .oauthUnavailable => pure none
      | failure => throw failure) : SessionAction (Option OAuth.Client)).Ends scene
      fun outcome after => Attended J fits after ∧
        ∀ client, outcome = .ok (some client) → fits client := by
  refine SessionAction.Ends.tryCatch (P := fun outcome after => Attended J fits after ∧
    ∀ client, outcome = .ok (some client) → fits client) ?_ (fun _ _ h => h) ?_
  · refine .bind (client_attended makes h) (fun client after hc => ?_) fun _ _ hc => ⟨hc.1, nofun⟩
    exact .pure ⟨hc.1, fun other ho => by
      have same : client = other := Option.some.inj (Except.ok.inj ho)
      exact same ▸ hc.2 client rfl⟩
  · intro failure after hf
    split
    · exact .pure ⟨hf.1, nofun⟩
    · exact .throw ⟨hf.1, nofun⟩

/-- Dropping the tokens of a subject ends as the client's revoking them does, or, where no
client is configured, as taking them out of the store. -/
theorem dropTokens_attended {subject : Text} {R : Except Failure Unit → Machine → Prop}
    (makes : ∀ machine, J machine → (keeper.factory keeper.stores).Ends machine
      fun outcome after => J after ∧ ∀ client, outcome = .ok client → fits client)
    (revokes : ∀ client, fits client → ∀ machine, J machine → (client.revoke subject).Ends machine R)
    (removes : ∀ machine, J machine → (keeper.stores.sessions.remove subject).Ends machine R)
    (failed : ∀ failure machine, J machine → R (.error failure) machine)
    (h : Attended J fits scene) :
    (keeper.dropTokens subject).Ends scene fun outcome after => Attended (R outcome) fits after := by
  refine .bind (sought_attended makes h) (fun made between hb => ?_)
    fun failure _ hb => ⟨failed failure _ hb.1.machine, hb.1.client⟩
  cases made with
  | some client => exact hb.1.lift (revokes client (hb.2 client rfl) _ hb.1.machine)
  | none => exact hb.1.lift (removes _ hb.1.machine)

/-- Authorizing gives a session with the handle and a passphrase that is not empty, and leaves
what the client's authorizing leaves. -/
theorem authorize_attended {handle : Text} {R : Text → Machine → Prop} {E : Machine → Prop}
    (makes : ∀ machine, J machine → (keeper.factory keeper.stores).Ends machine
      fun outcome after => J after ∧ ∀ client, outcome = .ok client → fits client)
    (authorizes : ∀ client, fits client → ∀ machine, J machine →
      (client.authorize handle).Ends machine fun outcome after =>
        (∀ authorization, outcome = .ok authorization → R authorization.subject after) ∧ E after)
    (quiet : ∀ subject machine after, R subject machine → E machine → machine.Quiet after →
      R subject after ∧ E after)
    (unmade : ∀ machine, J machine → E machine) (h : Attended J fits scene) :
    (keeper.authorize handle).Ends scene fun outcome after => Attended E fits after ∧
      ∀ session, outcome = .ok session → R session.subject after.machine ∧ session.handle = handle ∧
        ∃ passphrase, session.passphrase = some passphrase ∧ passphrase ≠ [] := by
  refine .bind (client_attended makes h) (fun client between hb => ?_)
    fun _ _ hb => ⟨⟨unmade _ hb.1.machine, hb.1.client⟩, nofun⟩
  have authorized := authorizes client (hb.2 client rfl) _ hb.1.machine
  refine .bind (hb.1.lift authorized) (fun authorization later hl => ?_)
    fun _ _ hl => ⟨⟨hl.machine.2, hl.client⟩, nofun⟩
  obtain ⟨told, either⟩ := hl.machine
  have fetched := keeper.keyserver.fetchPassphrase_yields authorization.accessToken? later.machine
  have kept := quiet _ _ _ (told authorization rfl) either (Machine.Quiet.of_passive
    (keeper.keyserver.fetchPassphrase_passive authorization.accessToken?) later.machine)
  refine .bind (P := fun outcome after => Attended E fits after ∧
    R authorization.subject after.machine ∧ ∀ passphrase, outcome = .ok passphrase → passphrase ≠ [])
    ?_ (fun passphrase last hp => ?_) fun _ last hp => ⟨hp.1, nofun⟩
  · refine .lift ⟨⟨kept.2, hl.client⟩, kept.1, fun passphrase ho => ?_⟩
    exact (fetched passphrase _ (Prod.ext ho rfl)).1
  · refine .pure ⟨hp.1, ?_⟩
    rintro _ ⟨⟩
    exact ⟨hp.2.1, rfl, passphrase, rfl, hp.2.2 passphrase rfl⟩

end Keeper

end SessionKeeper
