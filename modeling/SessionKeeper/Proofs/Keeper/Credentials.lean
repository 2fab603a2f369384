import SessionKeeper.Proofs.Keeper.Books
import SessionKeeper.Proofs.Keeper.Run

/-!
# Credentials over runs

Whatever is done with the sessions of a folder that was empty at first, and whatever of it
fails, the workers with a record are those with a secret, which is that of their latest
registration, and a passphrase is kept for the current account alone. If nothing failed, the
token sets are those of the current account as well.
-/
namespace SessionKeeper.Keeper

def accountsOf : Option Session → Set Text
  | some (.account s) => {s.subject}
  | _ => ∅

/-- That workers are known by their secrets and that the passphrase is that of the current
account. -/
structure Books.IsSettled (books : Books) : Prop where
  known : ∀ id, id ∈ books.registered ↔ (books.secrets id).isSome
  owners : books.owners = accountsOf books.current
  account : ∀ s, books.current = some (.account s) → IsAccount s.subject

/-- That the tokens are those of the current account. -/
def Books.IsExact (books : Books) : Prop := books.tokens = accountsOf books.current

/-- What a session that is entered makes of the workers' secrets. -/
def secretsWith (secrets : Text → Option Text) : Session → Text → Option Text
  | .account _ => secrets
  | .worker s => Function.update secrets s.worker.id s.worker.secret

/-- What is asked of a session that is to be entered: that of an account has a passphrase, and
that of a worker is the worker's own and has a secret. -/
def IsEntrant : Session → Prop
  | .account s => IsAccount s.subject ∧ ∃ passphrase, s.passphrase = some passphrase ∧ passphrase ≠ []
  | .worker s => s.subject = Worker.subject s.worker.id ∧ s.worker.id.IsJoined ∧
      s.worker.IsSound ∧ ∃ secret, s.worker.secret = some secret ∧ secret ≠ [] ∧ secret.IsJoined

def Books.entered (books : Books) : Session → Books
  | .account s => { books with
      current := some (.account s), owners := insert s.subject books.owners }
  | .worker s => { books with
      current := some (.worker s), registered := insert s.worker.id books.registered
      secrets := secretsWith books.secrets (.worker s) }

@[simp] theorem Books.entered_current (books : Books) (session : Session) :
    (books.entered session).current = some session := by
  cases session <;> rfl

@[simp] theorem Books.entered_secrets (books : Books) (session : Session) :
    (books.entered session).secrets = secretsWith books.secrets session := by
  cases session <;> rfl

@[simp] theorem Books.entered_tokens (books : Books) (session : Session) :
    (books.entered session).tokens = books.tokens := by
  cases session <;> rfl

theorem startsWith_subject (id : Text) : (Worker.subject id).startsWith "worker:" = true := by
  rw [Text.startsWith, List.isPrefixOf_iff_prefix]
  exact List.prefix_append _ _

theorem IsAccount.ne_subject {subject : Text} (h : IsAccount subject) (id : Text) :
    subject ≠ Worker.subject id := by
  rintro rfl
  exact Bool.noConfusion ((startsWith_subject id).symm.trans h.2)

theorem IsAccount.rejoin {subject : Text} (h : IsAccount subject) : subject.rejoin = subject :=
  Text.rejoin_of_isJoined h.1

theorem accountsOf_none : accountsOf none = ∅ := rfl

theorem accountsOf_worker (s : WorkerSession) : accountsOf (some (.worker s)) = ∅ := rfl

theorem accountsOf_account (s : AccountSession) : accountsOf (some (.account s)) = {s.subject} := rfl

namespace Books.IsSettled

variable {books : Books}

theorem accountsOf_recalled (h : books.IsSettled) :
    accountsOf (books.current.map Session.recalled) = accountsOf books.current := by
  cases hc : books.current with
  | none => rfl
  | some session =>
    cases session with
    | worker s => rfl
    | account s =>
      show ({s.subject.rejoin} : Set Text) = {s.subject}
      rw [(h.account s hc).rejoin]

/-- The accounts that stand in the way of a subject: none if the current session is its own. -/
theorem accountsOf_diff (h : books.IsSettled) {subject : Text}
    (own : ∀ session, books.current = some session → session.subject.rejoin = subject) :
    accountsOf books.current \ {subject} = ∅ := by
  rcases hc : books.current with _ | s | s
  · exact Set.empty_sdiff _
  · rw [accountsOf_account, ← own _ hc]
    show {s.subject} \ {s.subject.rejoin} = ∅
    rw [(h.account s hc).rejoin, Set.sdiff_self]
  · exact Set.empty_sdiff _

theorem accountsOf_diff_of_ne (h : books.IsSettled) {session : Session} {subject : Text}
    (current : books.current = some session) (other : session.subject.rejoin ≠ subject) :
    accountsOf books.current \ {subject} = accountsOf books.current := by
  rw [current]
  cases session with
  | worker s => exact Set.empty_sdiff _
  | account s =>
    have hne : s.subject ≠ subject := (h.account s current).rejoin ▸ other
    exact Set.sdiff_singleton_eq_self fun hm => hne (Set.mem_singleton_iff.mp hm).symm

theorem accountsOf_diff_subject (h : books.IsSettled) (id : Text) :
    accountsOf books.current \ {Worker.subject id} = accountsOf books.current := by
  rcases hc : books.current with _ | s | s
  · exact Set.empty_sdiff _
  · refine Set.sdiff_singleton_eq_self fun hm => ?_
    exact (h.account s hc).ne_subject id (Set.mem_singleton_iff.mp hm).symm
  · exact Set.empty_sdiff _

theorem entered (h : books.IsSettled) {session : Session} (entrant : IsEntrant session)
    (room : ∀ other, books.current = some other → other.subject.rejoin = session.subject) :
    (books.entered session).IsSettled := by
  cases session with
  | account s =>
    have others : accountsOf books.current \ {s.subject} = ∅ := h.accountsOf_diff room
    refine ⟨h.known, ?_, ?_⟩
    · show insert s.subject books.owners = {s.subject}
      rw [h.owners, Set.insert_eq, ← Set.union_sdiff_self, others, Set.union_empty]
    · rintro _ ⟨⟩
      exact entrant.1
  | worker s =>
    obtain ⟨own, -, -, secret, hs, -⟩ := entrant
    refine ⟨fun id => ?_, ?_, nofun⟩
    · show id ∈ insert s.worker.id books.registered ↔ (secretsWith books.secrets (.worker s) id).isSome
      rw [Set.mem_insert_iff, h.known, secretsWith, Function.update_apply, hs]
      split_ifs with same <;> simp [same]
    · show books.owners = ∅
      rw [h.owners]
      rcases hc : books.current with _ | other | other
      · rfl
      · have same : other.subject.rejoin = Worker.subject s.worker.id := (room _ hc).trans own
        exact absurd ((h.account other hc).rejoin.symm.trans same) ((h.account other hc).ne_subject _)
      · rfl

/-- With a worker forgotten and its session taken out, the books stay settled. -/
theorem forgotten (h : books.IsSettled) (id : Text) : Books.IsSettled { books with
    current := books.current.filter fun session => session.subject.rejoin ≠ Worker.subject id
    registered := books.registered \ {id}
    secrets := Function.update books.secrets id none } ∧
    accountsOf (books.current.filter fun session => session.subject.rejoin ≠ Worker.subject id) =
      accountsOf books.current := by
  have same : accountsOf (books.current.filter fun session =>
      session.subject.rejoin ≠ Worker.subject id) = accountsOf books.current := by
    rcases hc : books.current with _ | s | s
    · rfl
    · rw [Option.filter_some_pos]
      have hne : s.subject.rejoin ≠ Worker.subject id := by
        rw [(h.account s hc).rejoin]
        exact (h.account s hc).ne_subject id
      exact decide_eq_true hne
    · rw [accountsOf_worker, Option.filter]
      split_ifs <;> rfl
  refine ⟨⟨fun other => ?_, h.owners.trans same.symm, fun s hs => ?_⟩, same⟩
  · show other ∈ books.registered \ {id} ↔ (Function.update books.secrets id none other).isSome
    rw [Set.mem_sdiff, Set.mem_singleton_iff, h.known, Function.update_apply]
    split_ifs with same <;> simp [same]
  · exact h.account s (Option.filter_eq_some_iff.mp hs).1

end Books.IsSettled

variable {keeper : Keeper} {folder : Path} {place : Location} {machine : Machine}
  {holds : Machine → Secret.Ledger → Prop} {mark : Option Node} {books : Books} {scene : Scene}

theorem Attended.step {α : Type} {J K : Machine → Prop} {fits : OAuth.Client → Prop}
    (h : Attended J fits scene) {action : Action α} {a : α}
    (returns : ∃ after, action.exec scene.machine = (.ok a, after) ∧ K after) :
    (liftM action : SessionAction α).Ends scene fun outcome after =>
      outcome = .ok a ∧ Attended K fits after := by
  obtain ⟨after, he, hk⟩ := returns
  exact .lift (.of_exec he ⟨rfl, hk, h.client⟩)

section

variable [Runtime]

theorem log_books (own : keeper.StoresIn folder place holds)
    (h : Balanced keeper folder place holds mark books machine) (level : Level) (channel : Channel)
    (message : String) : ∃ after, (Action.log level channel message).exec machine = (.ok (), after) ∧
      Balanced keeper folder place holds mark books after :=
  ⟨_, rfl, h.quiet own (.of_passive (.log _ _ _) machine)⟩

theorem makes_books (own : keeper.StoresIn folder place holds)
    (loyal : keeper.factory.IsLoyal keeper.stores folder place) (machine : Machine)
    (h : Balanced keeper folder place holds mark books machine) :
    (keeper.factory keeper.stores).Ends machine fun outcome after =>
      Balanced keeper folder place holds mark books after ∧
        ∀ client, outcome = .ok client → client.IsLoyal folder place := by
  have balanced := h.respects own loyal.makes
  rw [loyal.tokens machine h.ground, h.tokens] at balanced
  exact ⟨balanced, fun client ho => loyal.made machine client _ h.ground (Prod.ext ho rfl)⟩

/-- Dropping tokens that returns takes out those of the subject and nothing else. -/
theorem dropTokens_books (own : keeper.StoresIn folder place holds)
    (loyal : keeper.factory.IsLoyal keeper.stores folder place)
    (h : Keeping keeper folder place holds mark books scene) (subject : Text) :
    (keeper.dropTokens subject).Ends scene fun outcome after => ∃ tokens,
      Keeping keeper folder place holds mark { books with tokens } after ∧
        (outcome = .ok () → tokens = books.tokens \ {subject}) := by
  refine (dropTokens_attended (R := fun outcome after => ∃ tokens,
      Balanced keeper folder place holds mark { books with tokens } after ∧
        (outcome = .ok () → tokens = books.tokens \ {subject}))
    (makes_books own loyal) (fun client fits machine hm => ?_) (fun machine hm => ?_)
    (fun _ machine hm => ?_) h).mono fun outcome after ha => ?_
  · refine ⟨_, hm.respects own (fits.revoke subject), fun ho => ?_⟩
    rw [fits.revokes subject machine _ hm.ground (Prod.ext ho rfl), hm.tokens]
  · rw [own.tokens]
    refine ⟨_, hm.respects own (tokens_remove_respects subject), fun ho => ?_⟩
    rw [tokens_remove_yields hm.ground subject () _ (Prod.ext ho rfl), hm.tokens]
  · exact ⟨books.tokens, hm, nofun⟩
  · obtain ⟨tokens, balanced, told⟩ := ha.machine
    exact ⟨tokens, ⟨balanced, ha.client⟩, told⟩

/-- Dropping the current session takes it out of the index, and with it its passphrase; unless
it fails, its tokens are gone as well. -/
theorem drop_books (own : keeper.StoresIn folder place holds)
    (loyal : keeper.factory.IsLoyal keeper.stores folder place)
    (h : Keeping keeper folder place holds mark books scene) (settled : books.IsSettled)
    {session : Session} (current : books.current = some session) :
    (keeper.drop session.recalled).Ends scene fun outcome after => ∃ tokens,
      Keeping keeper folder place holds mark
        { books with current := none, owners := ∅, tokens } after ∧
          (outcome = .ok () → tokens = books.tokens \ accountsOf books.current) := by
  have owners := settled.owners
  unfold drop
  rw [Session.subject_recalled]
  refine .bind_ok (h.step (index_remove_books own h.machine _)) fun between hb => ?_
  rw [current, Option.filter_some_neg (by simp)] at hb
  rw [current] at owners ⊢
  cases session with
  | worker s =>
    rw [accountsOf_worker] at owners ⊢
    rw [owners] at hb
    exact .pure ⟨books.tokens, hb, fun _ => Set.sdiff_empty.symm⟩
  | account s =>
    have same : s.subject.rejoin = s.subject := (settled.account s current).rejoin
    rw [accountsOf_account] at owners ⊢
    refine .bind_ok (hb.step (forget_passphrase_books own hb.machine s.subject.rejoin))
      fun later hl => ?_
    rw [owners, same, Set.sdiff_self] at hl
    show (keeper.dropTokens s.subject.rejoin).Ends later _
    rw [same]
    exact dropTokens_books own loyal hl s.subject

/-- Dropping the session of another subject leaves settled books and no session but one of the
subject's own. -/
theorem dropOthers_books (own : keeper.StoresIn folder place holds)
    (loyal : keeper.factory.IsLoyal keeper.stores folder place)
    (h : Keeping keeper folder place holds mark books scene) (settled : books.IsSettled)
    (subject : Text) :
    (keeper.dropOthers subject (books.current.map Session.recalled).toList).Ends scene
      fun outcome after => ∃ left, Keeping keeper folder place holds mark left after ∧
        left.IsSettled ∧ left.secrets = books.secrets ∧ (outcome = .ok () →
          (∀ other, left.current = some other → other.subject.rejoin = subject) ∧
          left.tokens = books.tokens \ (accountsOf books.current \ {subject})) := by
  cases hc : books.current with
  | none =>
    refine .pure ⟨books, h, settled, rfl, fun _ => ⟨fun other ho => ?_, ?_⟩⟩
    · rw [hc] at ho
      cases ho
    · exact by rw [accountsOf_none, Set.empty_sdiff, Set.sdiff_empty]
  | some session =>
    show (keeper.dropOthers subject [session.recalled]).Ends scene _
    rw [dropOthers, Session.subject_recalled, ← hc]
    by_cases hs : session.subject.rejoin = subject
    · have mine (other : Session) (ho : books.current = some other) :
          other.subject.rejoin = subject := Option.some.inj (hc.symm.trans ho) ▸ hs
      rw [if_neg (not_not.mpr hs), settled.accountsOf_diff mine, Set.sdiff_empty]
      exact .pure ⟨books, h, settled, rfl, fun _ => ⟨mine, rfl⟩⟩
    · rw [if_pos hs, settled.accountsOf_diff_of_ne hc hs]
      refine .bind_ok (h.step (log_books own h.machine _ _ _)) fun between hb => ?_
      have gone (tokens : Set Text) :
          Books.IsSettled { books with current := none, owners := ∅, tokens } :=
        ⟨settled.known, rfl, fun _ hs => by cases hs⟩
      refine .bind (drop_books own loyal hb settled hc)
        (fun _ later hl => ?_) fun _ later hl => ?_
      · obtain ⟨tokens, hl, told⟩ := hl
        exact .pure ⟨_, hl, gone tokens, rfl, fun _ => ⟨fun _ hs => (by cases hs), told rfl⟩⟩
      · obtain ⟨tokens, hl, -⟩ := hl
        exact ⟨_, hl, gone tokens, rfl, fun ho => by cases ho⟩

omit [Runtime] in
theorem storeSecret_of_ne_nil (keeper : Keeper) (service account : Text) {secret : Text}
    (h : secret ≠ []) :
    keeper.storeSecret service account (some secret) = keeper.secrets.put service account secret := by
  rw [storeSecret, if_neg (by simpa using h)]

theorem persist_books (own : keeper.StoresIn folder place holds)
    (h : Balanced keeper folder place holds mark books machine) {session : Session}
    (entrant : IsEntrant session)
    (room : ∀ other, books.current = some other → other.subject.rejoin = session.subject) :
    ∃ after, (keeper.persist session).exec machine = (.ok (), after) ∧
      Balanced keeper folder place holds mark (books.entered session) after := by
  rw [persist_eq]
  cases session with
  | account s =>
    obtain ⟨account, passphrase, hp, hne⟩ := entrant
    obtain ⟨between, stored, hb⟩ := put_passphrase_books own h account.1 passphrase
    have kept : (Session.account s).IsSound := trivial
    obtain ⟨after, he, ha⟩ := index_put_books own hb kept room
    rw [← storeSecret_of_ne_nil _ _ _ hne, ← hp] at stored
    exact ⟨after, (Action.exec_bind_ok stored).trans he, ha⟩
  | worker s =>
    obtain ⟨-, joined, sound, secret, hs, hne, hj⟩ := entrant
    obtain ⟨first, registered, hf⟩ := workers_put_books own h joined
    obtain ⟨between, stored, hb⟩ := put_secret_books own hf ⟨joined, hj⟩
    have kept : (Session.worker s).IsSound := sound
    obtain ⟨after, he, ha⟩ := index_put_books own hb kept room
    rw [← storeSecret_of_ne_nil _ _ _ hne, ← hs] at stored
    rw [← hs] at ha
    exact ⟨after, (Action.exec_bind_ok ((Action.exec_bind_ok registered).trans stored)).trans he, ha⟩

/-- What holds after a section under the session lock, and if it could not be entered, holds
once the lock is given back. -/
theorem holding_books (own : keeper.StoresIn folder place holds)
    (h : Keeping keeper folder place holds mark books scene) {α : Type} {x : SessionAction α}
    {S : Except Failure α → Books → Prop} (refused : ∀ failure, S (.error failure) books)
    (within : ∀ mark between, Keeping keeper folder place holds mark books between →
      x.Ends between fun outcome after =>
        ∃ left, Keeping keeper folder place holds mark left after ∧ S outcome left) :
    (keeper.lock.holding lockKey x).Ends scene fun outcome after =>
      ∃ mark left, Keeping keeper folder place holds mark left after ∧ S outcome left := by
  refine .holding (T := fun marker machine =>
    Balanced keeper folder place holds (machine.under place markName) books machine ∧
      Lock.Stands machine place markName marker ∧ marker.key = lockKey) ?_ ?_
  · obtain ⟨balanced, stands⟩ := acquire_books own h.machine
    unfold Action.Ends
    rcases ho : (keeper.lock.acquire lockKey).exec scene.machine with ⟨failure | marker, after⟩ <;>
      rw [ho] at balanced stands
    · exact ⟨_, books, ⟨balanced, h.client⟩, refused failure⟩
    · exact ⟨balanced, stands marker rfl⟩
  · rintro marker between ⟨balanced, stands, key⟩
    refine (within _ ⟨scene.client, between⟩ ⟨balanced, h.client⟩).mono ?_
    rintro outcome later ⟨left, hl, hs⟩
    have still : Lock.Stands later.machine place markName marker := stands.of_under hl.machine.mark
    refine (release_books own hl.machine still key).mono ?_
    rintro released after ⟨rfl, ha⟩
    exact ⟨_, left, ⟨ha, hl.client⟩, hs⟩

/-- What making a session current leaves in the books. If it returns, the session is the current
one, and of the tokens those of another account that was current before are gone. -/
def Replaced (books : Books) (session : Session) (outcome : Except Failure Unit) (left : Books) :
    Prop :=
  left.IsSettled ∧ (∀ failure, outcome = .error failure → left.secrets = books.secrets) ∧
    (outcome = .ok () → left.secrets = secretsWith books.secrets session ∧
      left.current = some session ∧
      left.tokens = books.tokens \ (accountsOf books.current \ {session.subject}))

theorem enter_books (own : keeper.StoresIn folder place holds)
    (loyal : keeper.factory.IsLoyal keeper.stores folder place)
    (h : Keeping keeper folder place holds mark books scene) (settled : books.IsSettled)
    {session : Session} (entrant : IsEntrant session) : (do
      keeper.dropOthers session.subject (← keeper.indexed)
      keeper.persist session : SessionAction Unit).Ends scene fun outcome after =>
        ∃ left, Keeping keeper folder place holds mark left after ∧
          Replaced books session outcome left := by
  refine .bind_ok (h.step ⟨_, indexed_exec own.index h.machine.shows, h.machine⟩) fun later hl => ?_
  refine .bind (dropOthers_books own loyal hl settled session.subject)
    (fun _ dropped ⟨left, hd, fit, same, told⟩ => ?_)
    fun failure _ ⟨left, hd, fit, same, _⟩ => ⟨left, hd, fit, fun _ _ => same, nofun⟩
  obtain ⟨room, tokens⟩ := told rfl
  obtain ⟨after, he, ha⟩ := persist_books own hd.machine entrant room
  refine .lift (.of_exec he ⟨left.entered session, ⟨ha, hd.client⟩, fit.entered entrant room,
    nofun, fun _ => ⟨?_, left.entered_current session, ?_⟩⟩)
  · rw [Books.entered_secrets, same]
  · rw [Books.entered_tokens, tokens]

theorem replaceBy_books (own : keeper.StoresIn folder place holds)
    (loyal : keeper.factory.IsLoyal keeper.stores folder place)
    (h : Keeping keeper folder place holds mark books scene) (settled : books.IsSettled)
    {session : Session} (entrant : IsEntrant session) :
    (keeper.replaceBy session).Ends scene fun outcome after => ∃ mark left,
      Keeping keeper folder place holds mark left after ∧ Replaced books session outcome left :=
  holding_books own h (fun _ => ⟨settled, fun _ _ => rfl, nofun⟩)
    fun _ _ hb => enter_books own loyal hb settled entrant

/-- That an operation left settled books, in which the workers' secrets are as told by its
outcome. If it returned and the tokens were exact before, they are so still. -/
def Leaves (keeper : Keeper) (folder : Path) (place : Location)
    (holds : Machine → Secret.Ledger → Prop) (books : Books) {α : Type}
    (told : Except Failure α → Text → Option Text) (outcome : Except Failure α) (after : Scene) :
    Prop :=
  ∃ mark left, Keeping keeper folder place holds mark left after ∧ left.IsSettled ∧
    left.secrets = told outcome ∧ ∀ a, outcome = .ok a → books.IsExact → left.IsExact

variable {α : Type} {told : Except Failure α → Text → Option Text}

/-- An operation that fails has only to leave settled books and the secrets of workers. -/
theorem leaves_of_error {left : Books} {after : Scene} {failure : Failure}
    (h : Keeping keeper folder place holds mark left after) (settled : left.IsSettled)
    (same : left.secrets = told (.error failure)) :
    Leaves keeper folder place holds books told (.error failure) after :=
  ⟨mark, left, h, settled, same, nofun⟩

theorem authorize_books (own : keeper.StoresIn folder place holds)
    (loyal : keeper.factory.IsLoyal keeper.stores folder place)
    (h : Keeping keeper folder place holds mark books scene) (handle : Text) :
    (keeper.authorize handle).Ends scene fun outcome after =>
      (∃ tokens, Keeping keeper folder place holds mark { books with tokens } after) ∧
      ∀ session, outcome = .ok session → IsEntrant (.account session) ∧
        Keeping keeper folder place holds mark
          { books with tokens := insert session.subject books.tokens } after := by
  refine (authorize_attended (R := fun subject after => IsAccount subject ∧
      Balanced keeper folder place holds mark
        { books with tokens := insert subject books.tokens } after)
    (E := fun after => ∃ tokens, Balanced keeper folder place holds mark { books with tokens } after)
    (makes_books own loyal) (fun client fits machine hm => ?_) ?_ (fun machine hm => ⟨_, hm⟩)
    h).mono fun outcome after ⟨ha, hs⟩ => ⟨?_, fun session ho => ?_⟩
  · have balanced := hm.respects own (fits.authorize handle)
    refine ⟨fun authorization ho => ?_, _, balanced⟩
    obtain ⟨account, tokens⟩ := fits.authorizes handle machine authorization _ hm.ground
      (Prod.ext ho rfl)
    rw [tokens, hm.tokens] at balanced
    exact ⟨account, balanced⟩
  · rintro subject machine after ⟨account, hm⟩ ⟨tokens, ht⟩ quiet
    exact ⟨⟨account, hm.quiet own quiet⟩, tokens, ht.quiet own quiet⟩
  · obtain ⟨tokens, ht⟩ := ha.machine
    exact ⟨tokens, ht, ha.client⟩
  · obtain ⟨⟨account, balanced⟩, -, passphrase, hp, hne⟩ := hs session ho
    exact ⟨⟨account, passphrase, hp, hne⟩, balanced, ha.client⟩

/-- Logging in leaves the workers and, for an account that is current then, its own passphrase
and tokens only. -/
theorem login_books (own : keeper.StoresIn folder place holds)
    (loyal : keeper.factory.IsLoyal keeper.stores folder place)
    (h : Keeping keeper folder place holds mark books scene) (settled : books.IsSettled)
    (handle : Text) (replace : Bool) : (keeper.login handle replace).Ends scene
      (Leaves keeper folder place holds books fun _ => books.secrets) := by
  have looks : keeper.current?.Ends scene.machine fun _ after =>
      Keeping keeper folder place holds mark books ⟨scene.client, after⟩ :=
    .of_exec (current?_exec own.index h.machine.shows) h
  rw [login_eq]
  refine .bind (screen_ends h looks handle.trim replace) (fun _ between hb => ?_)
    fun _ _ hb => leaves_of_error hb settled rfl
  refine .bind_ok (hb.step (log_books own hb.machine _ _ _)) fun between hb => ?_
  refine .bind (authorize_books own loyal hb handle.trim)
    (fun session later ⟨_, authorized⟩ => ?_)
    fun _ later ⟨⟨tokens, hl⟩, _⟩ => leaves_of_error hl
      ⟨settled.known, settled.owners, settled.account⟩ rfl
  obtain ⟨entrant, hl⟩ := authorized session rfl
  refine .bind (replaceBy_books own loyal hl ⟨settled.known, settled.owners, settled.account⟩ entrant)
    (fun _ last ⟨mark, left, hleft, fit, _, entered⟩ => ?_)
    fun failure last ⟨mark, left, hleft, fit, same, _⟩ =>
      leaves_of_error hleft fit (same failure rfl)
  obtain ⟨secrets, current, tokens⟩ := entered rfl
  refine .bind_ok (hleft.step (log_books own hleft.machine _ _ _)) fun after ha => ?_
  refine .pure ⟨mark, left, ha, fit, secrets, fun _ _ exact_before => ?_⟩
  have before : books.tokens = accountsOf books.current := exact_before
  rw [Books.IsExact, tokens, current, accountsOf_account, before]
  ext subject
  simp only [Set.mem_sdiff, Set.mem_insert_iff, Set.mem_singleton_iff, Session.subject]
  tauto

/-- The secrets of workers once a registration ended. -/
def secretsRegistered (secrets : Text → Option Text) (secret : Text) :
    Except Failure WorkerSession → Text → Option Text
  | .ok s => Function.update secrets s.worker.id (some secret)
  | .error _ => secrets

/-- The secrets of workers once the removal of one ended. -/
def secretsRemoved (secrets : Text → Option Text) (id : Text) : Except Failure α → Text → Option Text
  | .ok _ => Function.update secrets id none
  | .error _ => secrets

omit [Runtime] in
theorem isEntrant_of_make {id name secret : Text} {now : Moment} {worker : Worker}
    (made : Worker.make id name secret now = .ok worker) (clock : now.IsSound)
    (joined : id.IsJoined ∧ secret.IsJoined) (some_secret : secret ≠ []) :
    IsEntrant (.worker (.ofWorker worker)) := by
  obtain ⟨parts, -, -⟩ := Worker.make_ok made
  have hid : worker.id = id.trim := by rw [parts]
  have hsecret : worker.secret = some secret := by rw [parts]
  exact ⟨rfl, hid ▸ Text.isJoined_trim joined.1, Worker.isSound_of_make made clock, secret, hsecret,
    some_secret, joined.2⟩

theorem registerWorker_books (own : keeper.StoresIn folder place holds)
    (loyal : keeper.factory.IsLoyal keeper.stores folder place)
    (h : Keeping keeper folder place holds mark books scene) (settled : books.IsSettled)
    {id secret : Text} (name : Text) (joined : id.IsJoined ∧ secret.IsJoined) :
    (keeper.registerWorker id name secret).Ends scene
      (Leaves keeper folder place holds books (secretsRegistered books.secrets secret)) := by
  rw [registerWorker_eq]
  refine .bind (enroll_ends id name secret) (fun session between ⟨same, told⟩ => ?_)
    fun _ _ ⟨same, _⟩ => leaves_of_error (same ▸ h) settled rfl
  obtain ⟨worker, hw, rfl, some_secret⟩ := told session rfl
  subst same
  have entrant := isEntrant_of_make hw h.machine.shows.clock joined some_secret
  refine .bind (replaceBy_books own loyal h settled entrant)
    (fun _ later ⟨mark, left, hl, fit, _, entered⟩ => ?_)
    fun failure later ⟨mark, left, hl, fit, same, _⟩ => leaves_of_error hl fit (same failure rfl)
  obtain ⟨secrets, current, tokens⟩ := entered rfl
  refine .bind_ok (hl.step (log_books own hl.machine _ _ _)) fun after ha => ?_
  refine .pure ⟨mark, left, ha, fit, ?_, fun _ _ exact_before => ?_⟩
  · have hsecret : worker.secret = some secret := by rw [(Worker.make_ok hw).1]
    rw [secrets, secretsWith, secretsRegistered, ← hsecret]
    rfl
  · have before : books.tokens = accountsOf books.current := exact_before
    have others : accountsOf books.current \ {Worker.subject worker.id} =
      accountsOf books.current := settled.accountsOf_diff_subject worker.id
    rw [Books.IsExact, current, accountsOf_worker, tokens, before]
    show accountsOf books.current \ (accountsOf books.current \ {Worker.subject worker.id}) = ∅
    rw [others, Set.sdiff_self]

/-- Clearing leaves no credentials but those of workers, unless it fails. -/
theorem clear_books (own : keeper.StoresIn folder place holds)
    (loyal : keeper.factory.IsLoyal keeper.stores folder place)
    (h : Keeping keeper folder place holds mark books scene) (settled : books.IsSettled) :
    keeper.clear.Ends scene (Leaves keeper folder place holds books fun _ => books.secrets) := by
  unfold clear
  refine .bind (holding_books own h
    (S := fun outcome left => left.IsSettled ∧ left.secrets = books.secrets ∧
      ∀ a, outcome = .ok a → books.IsExact → left.IsExact)
    (fun failure => ⟨settled, rfl, fun _ ho => by cases ho⟩) fun mark between hb => ?_)
    (fun found between cleared => ?_) fun _ between cleared => ?_
  · refine .bind_ok (hb.step ⟨_, current?_exec own.index hb.machine.shows, hb.machine⟩)
      fun later hl => ?_
    cases hc : books.current with
    | none =>
      refine .bind_ok (hl.step (log_books own hl.machine _ _ _)) fun after ha => ?_
      exact .pure ⟨books, ha, settled, rfl, fun _ _ exact_before => exact_before⟩
    | some session =>
      have gone (tokens : Set Text) :
          Books.IsSettled { books with current := none, owners := ∅, tokens } :=
        ⟨settled.known, rfl, fun _ hs => by cases hs⟩
      refine .bind (drop_books own loyal hl settled hc) (fun _ last ht => ?_) fun _ last ht => ?_
      · obtain ⟨tokens, ht, told⟩ := ht
        refine .pure ⟨_, ht, gone tokens, rfl, fun _ _ exact_before => ?_⟩
        have before : books.tokens = accountsOf books.current := exact_before
        show tokens = ∅
        rw [told rfl, before, Set.sdiff_self]
      · obtain ⟨tokens, ht, -⟩ := ht
        exact ⟨_, ht, gone tokens, rfl, fun _ ho => by cases ho⟩
  · obtain ⟨mark, left, hl, fit, same, told⟩ := cleared
    have kept := told found rfl
    dsimp only
    split_ifs
    · refine .bind_ok (hl.step (log_books own hl.machine _ _ _)) fun after ha => ?_
      exact .pure ⟨mark, left, ha, fit, same, fun _ _ => kept⟩
    · exact .pure ⟨mark, left, hl, fit, same, fun _ _ => kept⟩
  · obtain ⟨mark, left, hl, fit, same, -⟩ := cleared
    exact leaves_of_error hl fit same

/-- Whether a worker is registered is told by its record or else its secret, and asking that
changes nothing. -/
theorem isRegistered_books (own : keeper.StoresIn folder place holds)
    (h : Balanced keeper folder place holds mark books machine) (id : Text) :
    ∃ existed after, (keeper.isRegistered id).exec machine = (.ok existed, after) ∧
      machine.Quiet after ∧
        (existed = true ↔ id ∈ books.registered ∨ (books.secrets id).isSome = true) := by
  obtain ⟨entries, held, keys, named⟩ := h.workers
  have found := Record.Store.get?_exec h.ground
    (isRecordName_of_mem workersName (by decide)).file held id
  rw [← own.workers] at found
  unfold isRegistered
  rw [Action.exec_bind_ok found, keys id, ← Assoc.value?_isSome]
  cases hv : entries.value? id with
  | none =>
    obtain ⟨ledger, kept, known, -⟩ := h.secrets
    obtain ⟨after, he, quiet⟩ := own.secrets.get? h.ground kept keeper.workerService id
    rw [known] at he
    exact ⟨_, after, (Action.exec_bind_ok he).trans rfl, quiet, by simp⟩
  | some record =>
    have proper : record.isNull = false := by
      have member := named (id, record) (Assoc.mem_of_value? hv)
      cases record with
      | null => nomatch member
      | _ => rfl
    refine ⟨true, machine, ?_, .refl machine, by simp⟩
    rw [if_pos (by rw [Option.any_some, proper]; rfl)]
    rfl

theorem removeWorker_books (own : keeper.StoresIn folder place holds)
    (h : Keeping keeper folder place holds mark books scene) (settled : books.IsSettled) (id : Text) :
    (liftM (keeper.removeWorker id) : SessionAction Bool).Ends scene
      (Leaves keeper folder place holds books (secretsRemoved books.secrets id)) := by
  have removed := holding_books own h (x := liftM (do
      let existed ← keeper.isRegistered id
      keeper.workers.remove id
      keeper.secrets.remove keeper.workerService id
      keeper.index.remove (Worker.subject id)
      return existed : Action Bool))
    (S := fun outcome left => left.IsSettled ∧ left.secrets = secretsRemoved books.secrets id outcome ∧
      ∀ a, outcome = .ok a → books.IsExact → left.IsExact)
    (fun failure => ⟨settled, rfl, nofun⟩) fun mark between hb => by
      obtain ⟨existed, first, h₁, quiet, -⟩ := isRegistered_books own hb.machine id
      obtain ⟨second, h₂, b₂⟩ := workers_remove_books own (hb.machine.quiet own quiet) id
      obtain ⟨third, h₃, b₃⟩ := forget_secret_books own b₂ id
      obtain ⟨last, h₄, b₄⟩ := index_remove_books own b₃ (Worker.subject id)
      obtain ⟨fit, same⟩ := settled.forgotten id
      refine .lift (.of_exec ((Action.exec_bind_ok h₁).trans ((Action.exec_bind_ok h₂).trans
        ((Action.exec_bind_ok h₃).trans ((Action.exec_bind_ok h₄).trans rfl))))
          ⟨_, ⟨b₄, hb.client⟩, fit, rfl, fun _ _ exact_before => ?_⟩)
      exact Eq.trans exact_before same.symm
  unfold removeWorker
  refine .lift (.bind (P := fun outcome after => Leaves keeper folder place holds books
      (secretsRemoved books.secrets id) outcome ⟨scene.client, after⟩)
    (SessionAction.Ends.holding_alone scene (removed.mono fun outcome after left => ?_))
    (fun existed between left => ?_) fun _ _ left => left)
  · obtain ⟨mark, left, hl, rest⟩ := left
    exact ⟨mark, left, ⟨hl.machine, h.client⟩, rest⟩
  · obtain ⟨mark, left, hl, fit, same, told⟩ := left
    have kept := told existed rfl
    cases existed with
    | true =>
      obtain ⟨after, he, ha⟩ := log_books own hl.machine .info .session "Removed worker"
      exact .of_exec ((Action.exec_bind_ok he).trans rfl)
        ⟨mark, left, ⟨ha, h.client⟩, fit, same, fun _ _ => kept⟩
    | false => exact ⟨mark, left, hl, fit, same, fun _ _ => kept⟩

theorem hydrate_looks (own : keeper.StoresIn folder place holds)
    (h : Balanced keeper folder place holds mark books machine) (session : Session) :
    (keeper.hydrate session).Ends machine fun _ after => machine.Quiet after := by
  have asked {between : Machine} (hb : machine.Quiet between) (service account : Text) :
      (keeper.secrets.get? service account).Ends between fun _ after => machine.Quiet after := by
    have still := h.quiet own hb
    obtain ⟨ledger, kept, -⟩ := still.secrets
    obtain ⟨after, he, quiet⟩ := own.secrets.get? still.ground kept service account
    exact .of_exec he (hb.trans quiet)
  unfold hydrate
  cases session with
  | account s => exact .bind (asked (.refl machine) _ _) (fun _ _ ha => ha) fun _ _ ha => ha
  | worker s =>
    refine .bind (P := fun _ after => machine.Quiet after)
      (.of_passive (registered_passive keeper s.worker) machine) (fun worker between hb => ?_)
      fun _ _ hb => hb
    refine .bind (asked hb _ _) (fun secret later hl => ?_) fun _ _ hl => hl
    dsimp only
    split_ifs
    · exact hl.trans (.of_passive (.log _ _ _) later)
    · exact hl

theorem load_looks (own : keeper.StoresIn folder place holds)
    (h : Balanced keeper folder place holds mark books machine) :
    keeper.load.Ends machine fun _ after => machine.Quiet after := by
  unfold load
  refine .bind (P := fun _ after => machine.Quiet after)
    (.of_passive (current?_passive keeper) machine) (fun found between hb => ?_) fun _ _ hb => hb
  cases found with
  | none => exact hb
  | some session =>
    exact .bind (hydrate_looks own (h.quiet own hb) session) (fun _ _ ha => hb.trans ha)
      fun _ _ ha => hb.trans ha

/-- What is asked of the texts of an operation: those of a registration are joined. -/
def Operation.IsJoined : Operation → Prop
  | .registerWorker id _ secret => id.IsJoined ∧ secret.IsJoined
  | _ => True

/-- The secrets of workers once an operation ended: a registration that returned puts the one
that was given, a removal that returned takes it out, and nothing else counts. -/
def secretsAfter (secrets : Text → Option Text) : Operation → Ending → Text → Option Text
  | .registerWorker _ _ secret, .ok (some (.worker s)) =>
    Function.update secrets s.worker.id (some secret)
  | .removeWorker id, .ok _ => Function.update secrets id none
  | _, _ => secrets

theorem perform_books (own : keeper.StoresIn folder place holds)
    (loyal : keeper.factory.IsLoyal keeper.stores folder place)
    (h : Keeping keeper folder place holds mark books scene) (settled : books.IsSettled)
    {operation : Operation} (joined : operation.IsJoined) : (keeper.perform operation).Ends scene
      (Leaves keeper folder place holds books (secretsAfter books.secrets operation)) := by
  have leaves {α : Type} {x : SessionAction α} {told : Except Failure α → Text → Option Text}
      (hx : x.Ends scene (Leaves keeper folder place holds books told)) (f : α → Option Session)
      (hf : ∀ a, told (.ok a) = secretsAfter books.secrets operation (.ok (f a)))
      (failed : ∀ failure, told (.error failure) =
        secretsAfter books.secrets operation (.error failure)) :
      (x >>= fun a => pure (f a)).Ends scene
        (Leaves keeper folder place holds books (secretsAfter books.secrets operation)) := by
    refine .bind hx (fun a after ⟨mark, left, hl, fit, same, kept⟩ => ?_)
      fun failure after ⟨mark, left, hl, fit, same, _⟩ =>
        leaves_of_error hl fit (same.trans (failed failure))
    exact .pure ⟨mark, left, hl, fit, same.trans (hf a), fun _ _ => kept a rfl⟩
  cases operation with
  | login handle replace =>
    exact leaves (login_books own loyal h settled handle replace) (fun s => some (.account s))
      (fun _ => rfl) fun _ => rfl
  | registerWorker id name secret =>
    exact leaves (registerWorker_books own loyal h settled name joined)
      (fun s => some (.worker s)) (fun _ => rfl) fun _ => rfl
  | clear => exact clear_books own loyal h settled
  | removeWorker id =>
    exact leaves (removeWorker_books own h settled id) (fun _ => none) (fun _ => rfl) fun _ => rfl
  | load =>
    refine .lift ((load_looks own h.machine).mono fun outcome after looked => ?_)
    exact ⟨mark, books, ⟨h.machine.quiet own looked, h.client⟩, settled, rfl,
      fun _ _ exact_before => exact_before⟩

/-- The secrets of workers after a run: of each worker that of its latest registration that
returned, unless its removal returned since. -/
def secretsOf : Trace → Text → Option Text
  | [] => fun _ => none
  | (operation, ending) :: rest => secretsAfter (secretsOf rest) operation ending

/-- That the credentials are those that a run left: of the workers those of their latest
registrations, and of accounts those of the current one alone. -/
structure HasCredentials (keeper : Keeper) (place : Location)
    (holds : Machine → Secret.Ledger → Prop) (trace : Trace) (machine : Machine)
    (workers : Assoc Text Json) (ledger : Secret.Ledger) (current : Option Session) : Prop where
  file : Record.Holds machine place workersName workers
  backend : holds machine ledger
  shown : keeper.current?.exec machine = (.ok current, machine)
  registered : ∀ id, id ∈ workers.keys ↔ (ledger keeper.workerService id).isSome
  named : ∀ pair ∈ workers, pair.2.member? "worker_id" = some (.str pair.1)
  secrets : ∀ id, ledger keeper.workerService id = secretsOf trace id
  passphrases : ∀ subject,
    (ledger keeper.passphraseService subject).isSome ↔ subject ∈ accountsOf current
  tokens : (∀ step ∈ trace, ∃ result, step.2 = .ok result) →
    tokenHolders machine place = accountsOf current

theorem Balanced.hasCredentials (own : keeper.StoresIn folder place holds)
    (h : Balanced keeper folder place holds mark books machine) (settled : books.IsSettled)
    {trace : Trace} (secrets : books.secrets = secretsOf trace)
    (tokens : (∀ step ∈ trace, ∃ result, step.2 = .ok result) → books.IsExact) :
    ∃ workers ledger current,
      HasCredentials keeper place holds trace machine workers ledger current := by
  obtain ⟨workers, held, keys, named⟩ := h.workers
  obtain ⟨ledger, kept, known, owners⟩ := h.secrets
  refine ⟨workers, ledger, _, held, kept, current?_exec own.index h.shows, fun id => ?_, named,
    fun id => by rw [known, secrets], fun subject => ?_, fun returned => ?_⟩
  · rw [← keys, settled.known, known]
  · rw [← owners, settled.owners, settled.accountsOf_recalled]
  · rw [h.tokens, tokens returned, settled.accountsOf_recalled]

theorem books_of_run (own : keeper.StoresIn folder place holds)
    (loyal : keeper.factory.IsLoyal keeper.stores folder place) {start : Machine}
    (fresh : Balanced keeper folder place holds mark books start) (settled : books.IsSettled)
    (blank : ∀ id, books.secrets id = none) (exactly : books.IsExact) {trace : Trace}
    (run : Run keeper (·.IsLoyal folder place) start trace scene)
    (joined : ∀ step ∈ trace, step.1.IsJoined) :
    ∃ mark left, Keeping keeper folder place holds mark left scene ∧ left.IsSettled ∧
      left.secrets = secretsOf trace ∧
      ((∀ step ∈ trace, ∃ result, step.2 = .ok result) → left.IsExact) := by
  -- Only an operation changes the books. Time that passes and another client leave them alone, but
  -- the tokens are known exactly only as long as each operation returned.
  induction run with
  | start => exact ⟨mark, books, ⟨fresh, nofun⟩, settled, funext blank, fun _ => exactly⟩
  | @perform trace scene after ending operation before ends ih =>
    obtain ⟨mark, left, hl, fit, same, kept⟩ :=
      ih fun step hs => joined step (List.mem_cons_of_mem _ hs)
    have performed := perform_books own loyal hl fit (joined (operation, ending) List.mem_cons_self)
    unfold SessionAction.Ends at performed
    rw [ends, same] at performed
    obtain ⟨mark, last, ha, fit, secrets, exact_after⟩ := performed
    refine ⟨mark, last, ha, fit, secrets, fun returned => ?_⟩
    obtain ⟨result, hr⟩ := returned (operation, ending) List.mem_cons_self
    exact exact_after result hr (kept fun step hs => returned step (List.mem_cons_of_mem _ hs))
  | wait now sound before ih =>
    obtain ⟨mark, left, hl, rest⟩ := ih joined
    exact ⟨mark, left, ⟨hl.machine.waited own sound, hl.client⟩, rest⟩
  | meet client fits before ih =>
    obtain ⟨mark, left, hl, rest⟩ := ih joined
    exact ⟨mark, left, ⟨hl.machine, fits⟩, rest⟩

/-- The books of a keeper that is made for an empty folder, without any secrets, have nothing. -/
theorem balanced_of_make {options : Options} {origin start : Machine}
    (made : (make folder options).exec origin = (.ok keeper, start))
    (ground : Ground origin folder place) (empty : ∀ name, origin.under place name = none)
    (clock : origin.now.IsSound) (service : options.secretService.IsJoined)
    (secrets : (options.secrets.getD (.ofVault (.inFolder folder))).Keeps folder place holds)
    (blank : holds origin .empty) (loyal : options.factory.IsLoyal keeper.stores folder place) :
    keeper.StoresIn folder place holds ∧
      Balanced keeper folder place holds none ⟨none, ∅, fun _ => none, ∅, ∅⟩ start := by
  obtain ⟨made_in, same⟩ := madeIn_of_make made
  have loyal : keeper.factory.IsLoyal keeper.stores folder place := made_in.factory ▸ loyal
  have own : keeper.StoresIn folder place holds := ⟨made_in.index, made_in.workers, made_in.tokens,
    made_in.lock, made_in.service ▸ service, made_in.secrets ▸ secrets, loyal.isApart⟩
  have only : ChangedOnly place (fun _ => False) origin start := changedOnly_of_make made
  have none_there (name : String) : start.under place name = none :=
    (only.under not_false).trans (empty name)
  have none_held (name : String) : Record.Holds start place name [] := .inl ⟨rfl, none_there name⟩
  have still : holds start .empty :=
    own.secrets.same blank (only.under not_false) (congrArg Prod.snd same)
  exact ⟨own, {
    shows := .of_make made ground empty clock
    workers := ⟨[], none_held workersName, fun _ => by simp, List.forall_mem_nil _⟩
    secrets := ⟨.empty, still, rfl, fun _ => by simp [Secret.Ledger.empty]⟩
    tokens := by
      rw [tokenHolders, (none_held tokensName).entriesAt_eq]
      simp
    mark := none_there markName }⟩

/-- From an empty folder and without any secrets on, a keeper keeps settled books, in which the
secrets are those that the run left. -/
theorem keeping_of_run {options : Options} {origin start : Machine}
    (made : (make folder options).exec origin = (.ok keeper, start))
    (ground : Ground origin folder place) (empty : ∀ name, origin.under place name = none)
    (clock : origin.now.IsSound) (service : options.secretService.IsJoined)
    (secrets : (options.secrets.getD (.ofVault (.inFolder folder))).Keeps folder place holds)
    (blank : holds origin .empty) (loyal : options.factory.IsLoyal keeper.stores folder place)
    {trace : Trace} (run : Run keeper (·.IsLoyal folder place) start trace scene)
    (joined : ∀ step ∈ trace, step.1.IsJoined) :
    keeper.StoresIn folder place holds ∧ ∃ mark left,
      Keeping keeper folder place holds mark left scene ∧ left.IsSettled ∧
      left.secrets = secretsOf trace ∧
      ((∀ step ∈ trace, ∃ result, step.2 = .ok result) → left.IsExact) := by
  obtain ⟨own, fresh⟩ := balanced_of_make made ground empty clock service secrets blank loyal
  have loyal : keeper.factory.IsLoyal keeper.stores folder place :=
    (madeIn_of_make made).1.factory ▸ loyal
  exact ⟨own, books_of_run own loyal fresh
    ⟨fun _ => by simp, rfl, fun _ hs => by cases hs⟩ (fun _ => rfl) rfl run joined⟩

/-- From an empty folder and without any secrets on, the credentials are those of the workers that
are registered and of the account that is current, whatever failed. Texts are taken to be joined,
since what is written with a split surrogate pair is read back joined. -/
theorem credentials_of_run {options : Options} {origin start : Machine}
    (made : (make folder options).exec origin = (.ok keeper, start))
    (ground : Ground origin folder place) (empty : ∀ name, origin.under place name = none)
    (clock : origin.now.IsSound) (service : options.secretService.IsJoined)
    (secrets : (options.secrets.getD (.ofVault (.inFolder folder))).Keeps folder place holds)
    (blank : holds origin .empty) (loyal : options.factory.IsLoyal keeper.stores folder place)
    {trace : Trace} (run : Run keeper (·.IsLoyal folder place) start trace scene)
    (joined : ∀ step ∈ trace, step.1.IsJoined) : ∃ workers ledger current,
      HasCredentials keeper place holds trace scene.machine workers ledger current := by
  obtain ⟨own, mark, left, hl, fit, told, exactly⟩ :=
    keeping_of_run made ground empty clock service secrets blank loyal run joined
  exact hl.machine.hasCredentials own fit told exactly

/-- A client that knows one account and keeps its tokens in the store that it is given. -/
def steadyFactory : OAuth.Factory := fun stores => return {
  authorize := fun _ => do
    stores.sessions.put "did:plc:a" (.obj [("access_token", .str "t")])
    return ⟨"did:plc:a", [("access_token", .str "t")]⟩
  restore := fun _ => throw .oauthUnavailable
  revoke := stores.sessions.remove }

/-- A client that knows this account and keeps its tokens in the store that it is given. -/
def accountFactory (subject : Text) : OAuth.Factory := fun stores => return {
  authorize := fun _ => do
    stores.sessions.put subject (.obj [("access_token", .str "t")])
    return ⟨subject, [("access_token", .str "t")]⟩
  restore := fun _ => throw .oauthUnavailable
  revoke := stores.sessions.remove }

theorem isRegular_accessToken :
    (Json.obj [("access_token", .str "t")]).IsRegular Runtime.reads :=
  (⟨by decide, by decide⟩ : Json.IsRegular 1 (.obj [("access_token", .str "t")])).roomy (by decide)

theorem accountFactory_isLoyal {subject : Text} (account : IsAccount subject)
    {stores : OAuth.Stores} (tokens : stores.sessions = ⟨folder.child tokensName⟩) :
    (accountFactory subject).IsLoyal stores folder place := by
  refine ⟨.pure _, fun _ _ => rfl, fun machine client after _ h => ?_⟩
  obtain ⟨⟩ := h
  refine ⟨fun handle => ?_, fun subject => ?_, fun handle => ?_, fun subject => ?_⟩
  · rw [tokens]
    exact (tokens_put_respects _ _).bind fun _ => .pure _
  · rw [tokens]
    exact tokens_remove_respects subject
  · rw [tokens]
    intro machine authorization after g he
    have put := tokens_put_yields g account.1 isRegular_accessToken
    refine Action.Yields.bind (R := fun authorization after => IsAccount authorization.subject ∧
      tokenHolders after place = insert authorization.subject (tokenHolders machine place))
      put (fun _ between hb => .pure ⟨account, hb⟩) authorization after he
  · rw [tokens]
    exact fun machine after g he => tokens_remove_yields g subject () after he

theorem steadyFactory_isLoyal {stores : OAuth.Stores}
    (tokens : stores.sessions = ⟨folder.child tokensName⟩) :
    steadyFactory.IsLoyal stores folder place :=
  have account : IsAccount "did:plc:a" := ⟨by decide, by decide⟩
  accountFactory_isLoyal account tokens

end

open scoped SessionKeeper.Runtime

/-- Making a keeper with that client for the empty folder. -/
def steadyMade : Except Failure Keeper × Machine :=
  (make ⟨"/", ["home"]⟩ { factory := steadyFactory }).exec Machine.bare

/-- The keeper of the empty folder with that client. -/
def steadyKeeper : Keeper := steadyMade.1.toOption.get (by decide +kernel)

/-- The worker that is registered on the empty folder. -/
def steadyWorker : Session := .worker (.ofWorker ⟨"w", "W", some "s", Machine.bare.now⟩)

/-- How registering it goes. -/
def steadyRegistered : Ending × Option OAuth.Client × Machine :=
  (steadyKeeper.perform (.registerWorker "w" "W" "s")).exec none steadyMade.2

theorem steadyRegistered_eq : steadyRegistered.1 = .ok (some steadyWorker) :=
  ending_eq_ok (by decide +kernel)

/-- How logging in after that goes. -/
def steadyEntered : Ending × Option OAuth.Client × Machine :=
  (steadyKeeper.perform (.login "a" true)).exec steadyRegistered.2.1 steadyRegistered.2.2

theorem steadyEntered_eq :
    steadyEntered.1 = .ok (some (.account ⟨"did:plc:a", "a", some "p"⟩)) :=
  ending_eq_ok (by decide +kernel)

/-- A worker is registered on the empty folder, and then an account takes its session's place. -/
theorem credentials_of_login : ∃ scene,
    let trace : Trace := [
      (.login "a" true, .ok (some (.account ⟨"did:plc:a", "a", some "p"⟩))),
      (.registerWorker "w" "W" "s", .ok (some steadyWorker))]
    Run steadyKeeper (·.IsLoyal ⟨"/", ["home"]⟩ ["home"]) steadyMade.2 trace scene ∧
      ∃ workers ledger current, HasCredentials steadyKeeper ["home"]
        (Secret.Vault.HoldsLedger ["home"]) trace scene.machine workers ledger current := by
  have registered := steadyRegistered_eq
  have entered := steadyEntered_eq
  have made : (make ⟨"/", ["home"]⟩ { factory := steadyFactory }).exec Machine.bare =
      (.ok steadyKeeper, steadyMade.2) := (eq_ok_get _ : steadyMade = _)
  unfold steadyEntered at entered
  unfold steadyRegistered at registered entered
  generalize steadyMade.2 = start at made registered entered
  generalize steadyKeeper = keeper at made registered entered
  have first : Run keeper (·.IsLoyal ⟨"/", ["home"]⟩ ["home"]) start [] ⟨none, start⟩ := .start
  have run := (first.next (.registerWorker "w" "W" "s") registered).next (.login "a" true) entered
  obtain ⟨own, -⟩ := madeIn_of_make made
  have blank : Secret.Vault.HoldsLedger ["home"] Machine.bare .empty :=
    ⟨[], .inl ⟨rfl, Machine.under_bare _⟩, rfl⟩
  refine ⟨_, run, credentials_of_run made Machine.ground_bare Machine.under_bare isSound_bare
    (by decide) (Secret.Vault.keeps _ _) blank (steadyFactory_isLoyal own.tokens) run ?_⟩
  intro step hs
  simp only [List.mem_cons, List.not_mem_nil, or_false] at hs
  rcases hs with rfl | rfl
  · trivial
  · exact ⟨by decide, by decide⟩

end SessionKeeper.Keeper
