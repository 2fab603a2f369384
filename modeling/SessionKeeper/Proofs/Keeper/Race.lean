import SessionKeeper.Proofs.Keeper.Serving

/-!
# Logins that meet

A login that may not replace a session comes in three parts: the check that no session is
current, the authorization, and the section under the session lock that makes the new session
the only one. Other processes may go on between the parts, and the check is not made again in
the section. So what is stored is always the session of the login that returned last: a login
that was checked before another one returned takes its place, and a login that is checked later
is refused.
-/
namespace SessionKeeper.Keeper

section

variable [Runtime]

/-- A login that may not replace a session runs as its three parts do, one after the other. -/
theorem login_exec_parts (keeper : Keeper) (handle : Text) (client : Option OAuth.Client)
    (machine : Machine) : (keeper.login handle false).exec client machine = (do
      keeper.screen handle.trim false
      let session ← keeper.procure handle.trim
      keeper.install session : SessionAction AccountSession).exec client machine := by
  simp only [login_eq, proceed, procure, install, bind_assoc]

/-- How far a login has come. -/
inductive Stage where
  | waiting
  | checked
  | authorized (session : AccountSession)
  | ended (outcome : Except Failure AccountSession)

/-- How far a login has come that goes on after a part of it, or ends with the part's failure. -/
def Stage.after {α : Type} (next : α → Stage) : Except Failure α → Stage
  | .ok a => next a
  | .error failure => .ended (.error failure)

/-- The logins that returned, with that of a process if this is how far it has come. -/
def Stage.enlist {P : Type} (p : P) (returned : List (P × AccountSession)) :
    Stage → List (P × AccountSession)
  | .ended (.ok session) => (p, session) :: returned
  | _ => returned

/-- Processes on one machine, each with a login under way. The logins that returned are listed,
the latest one first. -/
@[ext] structure Race (P : Type) where
  machine : Machine
  client : P → Option OAuth.Client
  stage : P → Stage
  returned : List (P × AccountSession)

/-- What happens next: a process goes on with its login, or time passes. -/
inductive Turn (P : Type) where
  | advance (p : P)
  | wait (now : Moment)

/-- That the clock is set to a time that can be stored. -/
def Turn.IsSound {P : Type} : Turn P → Prop
  | .advance _ => True
  | .wait now => now.IsSound

namespace Race

variable {P : Type} [DecidableEq P]

/-- All processes before their logins. -/
def start (machine : Machine) (client : P → Option OAuth.Client) : Race P :=
  ⟨machine, client, fun _ => .waiting, []⟩

/-- The race after a process ran a part of its login. -/
def settle {α : Type} (race : Race P) (p : P) (next : α → Stage)
    (ran : Except Failure α × Option OAuth.Client × Machine) : Race P where
  machine := ran.2.2
  client := Function.update race.client p ran.2.1
  stage := Function.update race.stage p (Stage.after next ran.1)
  returned := (Stage.after next ran.1).enlist p race.returned

section Settle

variable {α : Type} {p q : P} (race : Race P) (next : α → Stage)
  (ran : Except Failure α × Option OAuth.Client × Machine)

omit [Runtime] in
@[simp] theorem settle_machine : (race.settle p next ran).machine = ran.2.2 := rfl

omit [Runtime] in
@[simp] theorem settle_client_self : (race.settle p next ran).client p = ran.2.1 :=
  Function.update_self ..

omit [Runtime] in
@[simp] theorem settle_stage_self : (race.settle p next ran).stage p = .after next ran.1 :=
  Function.update_self ..

omit [Runtime] in
theorem settle_client_of_ne (other : q ≠ p) : (race.settle p next ran).client q = race.client q :=
  Function.update_of_ne other ..

omit [Runtime] in
theorem settle_stage_of_ne (other : q ≠ p) : (race.settle p next ran).stage q = race.stage q :=
  Function.update_of_ne other ..

omit [Runtime] in
theorem settle_returned_ok {session : AccountSession}
    (ended : Stage.after next ran.1 = .ended (.ok session)) :
    (race.settle p next ran).returned = (p, session) :: race.returned := by
  rw [settle, ended, Stage.enlist]

omit [Runtime] in
theorem settle_returned (open_still : ∀ session, Stage.after next ran.1 ≠ .ended (.ok session)) :
    (race.settle p next ran).returned = race.returned := by
  rw [settle]
  rcases hs : Stage.after next ran.1 with _ | _ | _ | (failure | session)
  all_goals first
    | rfl
    | exact absurd hs (open_still session)

omit [Runtime] in
theorem mem_settle_returned {session : AccountSession} :
    (q, session) ∈ (race.settle p next ran).returned ↔
      (q = p ∧ Stage.after next ran.1 = .ended (.ok session)) ∨ (q, session) ∈ race.returned := by
  by_cases ended : ∃ found, Stage.after next ran.1 = .ended (.ok found)
  · obtain ⟨found, ended⟩ := ended
    rw [settle_returned_ok race next ran ended, List.mem_cons, ended]
    simp [Prod.ext_iff, eq_comm]
  · rw [not_exists] at ended
    rw [settle_returned race next ran ended]
    simp [ended]

end Settle

variable (keepers : P → Keeper) (handles : P → Text)

/-- Lets a process run the next part of its login. -/
def advance (race : Race P) (p : P) : Race P :=
  match race.stage p with
  | .waiting => race.settle p (fun _ => .checked)
    (((keepers p).screen (handles p).trim false).exec (race.client p) race.machine)
  | .checked => race.settle p .authorized
    (((keepers p).procure (handles p).trim).exec (race.client p) race.machine)
  | .authorized session => race.settle p (fun returned => .ended (.ok returned))
    (((keepers p).install session).exec (race.client p) race.machine)
  | .ended _ => race

section Advance

variable {keepers handles} {race : Race P} {p : P}

theorem advance_waiting (h : race.stage p = .waiting) : race.advance keepers handles p =
    race.settle p (fun _ => .checked)
      (((keepers p).screen (handles p).trim false).exec (race.client p) race.machine) := by
  rw [advance, h]

theorem advance_checked (h : race.stage p = .checked) : race.advance keepers handles p =
    race.settle p .authorized
      (((keepers p).procure (handles p).trim).exec (race.client p) race.machine) := by
  rw [advance, h]

theorem advance_authorized {session : AccountSession} (h : race.stage p = .authorized session) :
    race.advance keepers handles p = race.settle p (fun returned => .ended (.ok returned))
      (((keepers p).install session).exec (race.client p) race.machine) := by
  rw [advance, h]

theorem advance_ended {outcome : Except Failure AccountSession} (h : race.stage p = .ended outcome) :
    race.advance keepers handles p = race := by
  rw [advance, h]

omit [Runtime] in
/-- A process that ran one part after another is where the second part left it. -/
theorem settle_settle {α β : Type} (first : α → Stage) (second : β → Stage)
    (ran : Except Failure α × Option OAuth.Client × Machine)
    (more : Except Failure β × Option OAuth.Client × Machine)
    (open_still : ∀ session, Stage.after first ran.1 ≠ .ended (.ok session)) :
    (race.settle p first ran).settle p second more = race.settle p second more := by
  have returned : (race.settle p first ran).returned = race.returned :=
    settle_returned race first ran open_still
  apply Race.ext
  · rfl
  · exact Function.update_idem ..
  · exact Function.update_idem ..
  · exact congrArg (fun returned => Stage.enlist p returned (.after second more.1)) returned

/-- A process that runs all parts in a row runs its login. -/
theorem advance_three (h : race.stage p = .waiting) :
    ((race.advance keepers handles p).advance keepers handles p).advance keepers handles p =
      race.settle p (fun session => .ended (.ok session))
        (((keepers p).login (handles p) false).exec (race.client p) race.machine) := by
  rw [advance_waiting h, login_exec_parts]
  rcases hc : ((keepers p).screen (handles p).trim false).exec (race.client p) race.machine with
    ⟨failure | _, client, checked⟩
  · have ended : (race.settle p (fun _ => .checked) ((.error failure, client, checked) :
        Except Failure Unit × _)).stage p = .ended (.error failure) := settle_stage_self ..
    rw [SessionAction.exec_bind_error hc, advance_ended ended, advance_ended ended]
    rfl
  · have ready : (race.settle p (fun _ => .checked) ((.ok (), client, checked) :
        Except Failure Unit × _)).stage p = .checked := settle_stage_self ..
    rw [SessionAction.exec_bind_ok hc, advance_checked ready,
      settle_settle _ _ _ _ (by simp [Stage.after]), settle_client_self, settle_machine]
    rcases ha : ((keepers p).procure (handles p).trim).exec client checked with
      ⟨failure | session, later, authorized⟩
    · have ended : (race.settle p .authorized (.error failure, later, authorized)).stage p =
          .ended (.error failure) := settle_stage_self ..
      rw [SessionAction.exec_bind_error ha, advance_ended ended]
      rfl
    · have ready : (race.settle p .authorized (.ok session, later, authorized)).stage p =
          .authorized session := settle_stage_self ..
      rw [SessionAction.exec_bind_ok ha, advance_authorized ready,
        settle_settle _ _ _ _ (by simp [Stage.after]), settle_client_self, settle_machine]

end Advance

def turn (race : Race P) : Turn P → Race P
  | .advance p => race.advance keepers handles p
  | .wait now => { race with machine := { race.machine with now } }

/-- The race after these turns. -/
def run (race : Race P) (turns : List (Turn P)) : Race P :=
  turns.foldl (turn keepers handles) race

end Race

variable {keeper other : Keeper} {folder : Path} {place : Location} {machine after : Machine}
  {holds : Machine → Secret.Ledger → Prop} {mark : Option Node} {books : Books} {scene : Scene}

/-- What comes of the check before a login that may not replace the current session. -/
def verdict (handle : Text) (current : Option Session) : Except Failure Unit :=
  if handle.isEmpty then .error .handleRequired
  else match current with
    | some session => .error (.sessionActive session)
    | none => .ok ()

/-- The check tells of the session that is current, and changes nothing. -/
theorem screen_exec (hi : keeper.index = ⟨folder.child indexName⟩) {current : Option Session}
    (h : Shows folder place current machine) (handle : Text) (client : Option OAuth.Client) :
    (keeper.screen handle false).exec client machine =
      (verdict handle (current.map Session.recalled), client, machine) := by
  unfold screen verdict
  by_cases blank : handle.isEmpty = true
  · rw [if_pos blank, if_pos blank]
    rfl
  · rw [if_neg blank, if_neg blank]
    have found := current?_exec hi h
    rw [SessionAction.exec_bind, SessionAction.exec_lift, found]
    cases current with
    | none => rfl
    | some session => rfl

theorem Balanced.shared (same : other.secretService = keeper.secretService)
    (h : Balanced keeper folder place holds mark books machine) :
    Balanced other folder place holds mark books machine := by
  obtain ⟨shows, workers, ⟨ledger, held, known, owners⟩, tokens, mark⟩ := h
  refine ⟨shows, workers, ⟨ledger, held, ?_, ?_⟩, tokens, mark⟩
  · rw [workerService, same]
    exact known
  · rw [passphraseService, same]
    exact owners

theorem HasStored.shared (same : other.secretService = keeper.secretService) {session : Session}
    (h : keeper.HasStored place holds session machine) :
    other.HasStored place holds session machine := by
  obtain ⟨filed, only, worker, ledger, held, known⟩ := h
  refine ⟨filed, only, worker, ledger, held, ?_⟩
  rw [← known]
  cases session with
  | account s =>
    show ledger other.passphraseService _ = ledger keeper.passphraseService _
    rw [passphraseService, same, passphraseService]
  | worker s =>
    show ledger other.workerService _ = ledger keeper.workerService _
    rw [workerService, same, workerService]

/-- That the keepers of some processes have their files in one folder and their secrets under one
service, and that the client of each one serves an account of its own. -/
structure Rivals {P : Type} (keeper : Keeper) (keepers : P → Keeper) (handles accounts : P → Text)
    (folder : Path) (place : Location) (holds : Machine → Secret.Ledger → Prop) : Prop where
  stores : ∀ p, (keepers p).StoresIn folder place holds
  lies : ∀ p, (keepers p).LiesIn folder
  service : ∀ p, (keepers p).secretService = keeper.secretService
  serves : ∀ p, (keepers p).factory.Serves (handles p).trim (accounts p) (keepers p).stores
    folder place
  apart : Function.Injective accounts

namespace Race

variable {P : Type} {keepers : P → Keeper} {handles accounts : P → Text} {race : Race P} {p : P}
  {left : Books}

/-- What is stored according to the logins that returned: nothing but the session of the latest
one, which has its tokens. -/
def Latest (keeper : Keeper) (place : Location) (holds : Machine → Secret.Ledger → Prop)
    (books : Books) (machine : Machine) : List (P × AccountSession) → Prop
  | [] => books.current = none
  | (_, session) :: _ => books.current = some (.account session) ∧
    session.subject ∈ books.tokens ∧ ((Session.account session).IsJoined →
      keeper.HasStored place holds (.account session) machine)

theorem Latest.mono {returned : List (P × AccountSession)}
    (h : Latest keeper place holds books machine returned) (current : left.current = books.current)
    (tokens : ∀ p session rest, returned = (p, session) :: rest →
      session.subject ∈ books.tokens → session.subject ∈ left.tokens)
    (stored : ∀ session, keeper.HasStored place holds session machine →
      keeper.HasStored place holds session after) :
    Latest keeper place holds left after returned := by
  cases returned with
  | nil => exact current.trans h
  | cons first rest =>
    obtain ⟨shown, there, kept⟩ := h
    exact ⟨current.trans shown, tokens _ _ _ rfl there, fun joined => stored _ (kept joined)⟩

/-- That a race is in order: the books tell what is stored, every client serves its account, every
session is one of its process's account, and the logins that returned are listed. -/
structure Tallies (keeper : Keeper) (handles accounts : P → Text) (folder : Path)
    (place : Location) (holds : Machine → Secret.Ledger → Prop) (mark : Option Node)
    (books : Books) (race : Race P) : Prop where
  balanced : Balanced keeper folder place holds mark books race.machine
  keepable : Keepable folder place race.machine
  settled : books.IsSettled
  clients : ∀ p client, race.client p = some client →
    client.Serves (handles p).trim (accounts p) folder place
  authorized : ∀ p session, race.stage p = .authorized session →
    session.subject = accounts p ∧ IsEntrant (.account session) ∧ accounts p ∈ books.tokens
  listed : ∀ p session, (p, session) ∈ race.returned ↔ race.stage p = .ended (.ok session)
  own : ∀ p session, (p, session) ∈ race.returned → session.subject = accounts p
  latest : Latest keeper place holds books race.machine race.returned

/-- A login that is still under way is not the latest one that returned. -/
theorem Tallies.ne_latest (h : Tallies keeper handles accounts folder place holds mark books race)
    (apart : Function.Injective accounts) (open_yet : ∀ s, race.stage p ≠ .ended (.ok s)) {q : P}
    {session : AccountSession} (returned : (q, session) ∈ race.returned) :
    session.subject ≠ accounts p := by
  rw [h.own q session returned]
  intro same
  obtain rfl := apart same
  exact open_yet session ((h.listed q session).mp returned)

/-- The account of a login under way is not the one that is current. -/
theorem Tallies.not_mem_current
    (h : Tallies keeper handles accounts folder place holds mark books race)
    (apart : Function.Injective accounts) (open_yet : ∀ s, race.stage p ≠ .ended (.ok s)) :
    accounts p ∉ accountsOf books.current := by
  have latest := h.latest
  rcases hr : race.returned with _ | ⟨⟨q, session⟩, rest⟩ <;> rw [hr] at latest
  · rw [show books.current = none from latest]
    simp [accountsOf_none]
  · rw [latest.1, accountsOf_account, Set.mem_singleton_iff]
    have listed : (q, session) ∈ race.returned := by simp [hr]
    exact (h.ne_latest apart open_yet listed).symm

variable [DecidableEq P]

/-- What a part of a login has to leave so that the race is in order again. -/
theorem Tallies.settle (h : Tallies keeper handles accounts folder place holds mark books race)
    (open_yet : ∀ s, race.stage p ≠ .ended (.ok s)) {α : Type} {next : α → Stage}
    {outcome : Except Failure α} {client : Option OAuth.Client} {mark : Option Node}
    (balanced : Balanced keeper folder place holds mark left after)
    (keepable : Keepable folder place after) (settled : left.IsSettled)
    (fits : ∀ c, client = some c → c.Serves (handles p).trim (accounts p) folder place)
    (authorized : ∀ session, Stage.after next outcome = .authorized session →
      session.subject = accounts p ∧ IsEntrant (.account session) ∧ accounts p ∈ left.tokens)
    (others : ∀ q session, q ≠ p → race.stage q = .authorized session →
      accounts q ∈ books.tokens → accounts q ∈ left.tokens)
    (own : ∀ session, Stage.after next outcome = .ended (.ok session) →
      session.subject = accounts p)
    (latest : Latest keeper place holds left after
      (race.settle p next (outcome, client, after)).returned) :
    Tallies keeper handles accounts folder place holds mark left
      (race.settle p next (outcome, client, after)) := by
  refine ⟨balanced, keepable, settled, fun q c hc => ?_, fun q session hs => ?_, fun q session => ?_,
    fun q session hq => ?_, latest⟩
  · by_cases same : q = p
    · subst same
      rw [settle_client_self] at hc
      exact fits c hc
    · rw [settle_client_of_ne race next _ same] at hc
      exact h.clients q c hc
  · by_cases same : q = p
    · subst same
      rw [settle_stage_self] at hs
      exact authorized session hs
    · rw [settle_stage_of_ne race next _ same] at hs
      obtain ⟨mine, entrant, there⟩ := h.authorized q session hs
      exact ⟨mine, entrant, others q session same hs there⟩
  · rw [mem_settle_returned, h.listed]
    by_cases same : q = p
    · subst same
      simp [open_yet session]
    · rw [settle_stage_of_ne race next _ same]
      simp [same]
  · rcases (mem_settle_returned race next _).mp hq with ⟨rfl, ended⟩ | there
    · exact own session ended
    · exact h.own q session there

/-- The check of a process leaves the race in order: it stores nothing, so the books are as before
whatever it tells. -/
theorem Tallies.after_check (rivals : Rivals keeper keepers handles accounts folder place holds)
    (h : Tallies keeper handles accounts folder place holds mark books race)
    (hs : race.stage p = .waiting) :
    Tallies keeper handles accounts folder place holds mark books
      (race.advance keepers handles p) := by
  have open_yet (s : AccountSession) : race.stage p ≠ .ended (.ok s) := by simp [hs]
  have unended (outcome : Except Failure Unit) (s : AccountSession) :
      Stage.after (fun _ => .checked) outcome ≠ .ended (.ok s) := by
    cases outcome <;> simp [Stage.after]
  have unauthorized (outcome : Except Failure Unit) (s : AccountSession) :
      Stage.after (fun _ => .checked) outcome ≠ .authorized s := by
    cases outcome <;> simp [Stage.after]
  rw [advance_waiting hs, screen_exec (rivals.stores p).index h.balanced.shows]
  refine h.settle open_yet h.balanced h.keepable h.settled (h.clients p)
    (fun s hn => absurd hn (unauthorized _ s)) (fun _ _ _ _ there => there)
    (fun s hn => absurd hn (unended _ s)) ?_
  rw [settle_returned _ _ _ (unended _)]
  exact h.latest

/-- The authorization of a process leaves the race in order. It may add the token set of the
process's own account and take out none, so the session that is current keeps its tokens. -/
theorem Tallies.after_authorization
    (rivals : Rivals keeper keepers handles accounts folder place holds)
    (h : Tallies keeper handles accounts folder place holds mark books race)
    (hs : race.stage p = .checked) :
    ∃ left, Tallies keeper handles accounts folder place holds mark left
      (race.advance keepers handles p) := by
  have same : keeper.secretService = (keepers p).secretService := (rivals.service p).symm
  have mine := h.balanced.shared (rivals.service p)
  have open_yet (s : AccountSession) : race.stage p ≠ .ended (.ok s) := by simp [hs]
  have ended : ((keepers p).procure (handles p).trim).Ends ⟨race.client p, race.machine⟩ _ :=
    procure_ends (rivals.serves p) h.keepable (h.clients p)
  rw [advance_checked hs]
  unfold SessionAction.Ends at ended
  rcases he : ((keepers p).procure (handles p).trim).exec (race.client p) race.machine with
    ⟨outcome, client, after⟩
  rw [he] at ended
  obtain ⟨⟨procured, fits⟩, told⟩ := ended
  have balanced := (mine.untouched (rivals.stores p) procured.untouched).shared same
  have unended (s : AccountSession) : Stage.after .authorized outcome ≠ .ended (.ok s) := by
    cases outcome <;> simp [Stage.after]
  have spared (q : P) (other : q ≠ p) (there : accounts q ∈ books.tokens) :
      accounts q ∈ tokenHolders after place := by
    refine procured.others ⟨h.balanced.tokens ▸ there, fun same => ?_⟩
    exact other (rivals.apart same)
  refine ⟨_, h.settle open_yet balanced procured.keepable
    ⟨h.settled.known, h.settled.owners, h.settled.account⟩ fits (fun s hn => ?_)
    (fun q _ other _ => spared q other) (fun s hn => absurd hn (unended s)) ?_⟩
  · cases outcome with
    | error failure => cases hn
    | ok session =>
      obtain rfl : session = s := by simpa [Stage.after] using hn
      exact told session rfl
  · rw [settle_returned _ _ _ unended]
    refine h.latest.mono rfl (fun q session rest returned there => ?_) fun session stored => ?_
    · have listed : (q, session) ∈ race.returned := by simp [returned]
      rw [h.own q session listed] at there ⊢
      refine spared q ?_ there
      rintro rfl
      exact open_yet session ((h.listed q session).mp listed)
    · exact ((stored.shared (rivals.service p)).untouched (rivals.stores p)
        procured.untouched).shared same

/-- The section of a process leaves the race in order. Where it returns, its session is the latest
one; the tokens that it takes out are those of the account that was current, which is the account
of no login under way. -/
theorem Tallies.after_section (rivals : Rivals keeper keepers handles accounts folder place holds)
    (h : Tallies keeper handles accounts folder place holds mark books race)
    {session : AccountSession} (hs : race.stage p = .authorized session) :
    ∃ mark left, Tallies keeper handles accounts folder place holds mark left
      (race.advance keepers handles p) := by
  have same : keeper.secretService = (keepers p).secretService := (rivals.service p).symm
  have mine := h.balanced.shared (rivals.service p)
  have open_yet (s : AccountSession) : race.stage p ≠ .ended (.ok s) := by simp [hs]
  obtain ⟨account, entrant, there⟩ := h.authorized p session hs
  have ended : ((keepers p).install session).Ends ⟨race.client p, race.machine⟩ _ :=
    install_ends (rivals.stores p) (rivals.lies p) (rivals.serves p) ⟨mine, h.clients p⟩
      h.keepable h.settled entrant
  rw [advance_authorized hs]
  unfold SessionAction.Ends at ended
  rcases he : ((keepers p).install session).exec (race.client p) race.machine with
    ⟨outcome, client, after⟩
  rw [he] at ended
  obtain ⟨told, fits⟩ := ended
  unfold Settled at told
  split at told
  · obtain ⟨rfl, mark, left, installed⟩ := told
    have kept (q : P) (open_too : ∀ s, race.stage q ≠ .ended (.ok s))
        (there : accounts q ∈ books.tokens) : accounts q ∈ left.tokens := by
      rw [installed.tokens]
      exact ⟨there, fun gone => h.not_mem_current rivals.apart open_too gone.1⟩
    have mine_kept := kept p open_yet there
    refine ⟨mark, left, h.settle open_yet (installed.balanced.shared same) installed.keepable
      installed.settled fits
      (fun s hn => by cases hn) (fun q s other hq => kept q (by simp [hq])) (fun s hn => ?_) ?_⟩
    · obtain rfl : session = s := by simpa [Stage.after] using hn
      exact account
    · rw [settle_returned_ok _ _ _ rfl]
      exact ⟨installed.current, account ▸ mine_kept, fun joined =>
        (installed.stored joined).shared same⟩
  -- a section that fails has not been given the lock, and nothing was stored
  · obtain ⟨rfl, ⟨mark, balanced⟩, keepable, kept⟩ := told
    refine ⟨mark, books, h.settle open_yet (balanced.shared same) keepable h.settled fits
      (fun s hn => by cases hn) (fun _ _ _ _ there => there) (fun s hn => by cases hn) ?_⟩
    rw [settle_returned _ _ _ (fun s => by simp [Stage.after])]
    exact h.latest.mono rfl (fun _ _ _ _ there => there) fun s stored =>
      (kept s (stored.shared (rivals.service p))).shared same

/-- Whatever part of its login a process runs, the race is in order afterwards. -/
theorem Tallies.advance (rivals : Rivals keeper keepers handles accounts folder place holds)
    (h : Tallies keeper handles accounts folder place holds mark books race) (p : P) :
    ∃ mark left, Tallies keeper handles accounts folder place holds mark left
      (race.advance keepers handles p) := by
  cases hs : race.stage p with
  | waiting => exact ⟨mark, books, h.after_check rivals hs⟩
  | checked =>
    obtain ⟨left, tallies⟩ := h.after_authorization rivals hs
    exact ⟨mark, left, tallies⟩
  | authorized session => exact h.after_section rivals hs
  | ended outcome =>
    rw [advance_ended hs]
    exact ⟨mark, books, h⟩

theorem Tallies.turn (rivals : Rivals keeper keepers handles accounts folder place holds)
    (own : keeper.StoresIn folder place holds)
    (h : Tallies keeper handles accounts folder place holds mark books race) {turn : Turn P}
    (sound : turn.IsSound) : ∃ mark left, Tallies keeper handles accounts folder place holds mark
      left (race.turn keepers handles turn) := by
  cases turn with
  | advance p => exact h.advance rivals p
  | wait now =>
    exact ⟨mark, books, h.balanced.waited own sound, ⟨⟨h.keepable.ground.leads,
      h.keepable.ground.stands, h.keepable.ground.numbered⟩, ⟨h.keepable.writable.free,
        h.keepable.writable.plain⟩, h.keepable.held⟩, h.settled, h.clients, h.authorized, h.listed,
      h.own, h.latest.mono rfl (fun _ _ _ _ there => there) fun session stored =>
        stored.of_under own (fun _ _ => rfl) rfl⟩

/-- That a login has not begun or was refused, and that another one has returned by then. -/
structure IsLate (race : Race P) (q : P) : Prop where
  overtaken : race.returned ≠ []
  refused : race.stage q = .waiting ∨ race.stage q = .ended (.error .handleRequired) ∨
    ∃ current, race.stage q = .ended (.error (.sessionActive current))

omit [Runtime] in
theorem settle_returned_ne_nil {α : Type} (next : α → Stage)
    (ran : Except Failure α × Option OAuth.Client × Machine) (h : race.returned ≠ []) :
    (race.settle p next ran).returned ≠ [] := by
  obtain ⟨⟨q, session⟩, there⟩ := List.exists_mem_of_ne_nil _ h
  exact List.ne_nil_of_mem ((mem_settle_returned race next ran).mpr (.inr there))

/-- A late login is refused when it is checked, and stays refused. -/
theorem IsLate.advance (rivals : Rivals keeper keepers handles accounts folder place holds)
    (tallies : Tallies keeper handles accounts folder place holds mark books race) {q : P}
    (h : race.IsLate q) (p : P) : (race.advance keepers handles p).IsLate q := by
  by_cases same : q = p
  · subst same
    rcases h.refused with waiting | refused
    · obtain ⟨⟨r, session⟩, rest, hr⟩ := List.exists_cons_of_ne_nil h.overtaken
      have latest := tallies.latest
      rw [hr] at latest
      rw [advance_waiting waiting]
      refine ⟨settle_returned_ne_nil _ _ h.overtaken, .inr ?_⟩
      rw [settle_stage_self, screen_exec (rivals.stores q).index tallies.balanced.shows, latest.1]
      by_cases blank : (handles q).trim.isEmpty = true
      · exact .inl (by simp [verdict, blank, Stage.after])
      · exact .inr ⟨(Session.account session).recalled, by simp [verdict, blank, Stage.after]⟩
    · have still : race.advance keepers handles q = race := by
        rcases refused with blank | ⟨current, active⟩
        · exact advance_ended blank
        · exact advance_ended active
      rw [still]
      exact h
  · unfold Race.advance
    split
    all_goals first
      | exact h
      | refine ⟨settle_returned_ne_nil _ _ h.overtaken, ?_⟩
        rw [settle_stage_of_ne _ _ _ same]
        exact h.refused

/-- A race that is in order stays so, and a late login stays late. -/
theorem Tallies.run (rivals : Rivals keeper keepers handles accounts folder place holds)
    (own : keeper.StoresIn folder place holds)
    (h : Tallies keeper handles accounts folder place holds mark books race)
    (turns : List (Turn P)) (sound : ∀ turn ∈ turns, turn.IsSound) :
    (∃ mark left, Tallies keeper handles accounts folder place holds mark left
      (race.run keepers handles turns)) ∧
    ∀ q, race.IsLate q → (race.run keepers handles turns).IsLate q := by
  induction turns generalizing race mark books with
  | nil => exact ⟨⟨mark, books, h⟩, fun _ late => late⟩
  | cons turn rest ih =>
    obtain ⟨mark, left, next⟩ := h.turn rivals own (sound turn List.mem_cons_self)
    obtain ⟨last, late⟩ := ih next fun other ho => sound other (List.mem_cons_of_mem _ ho)
    refine ⟨last, fun q hq => late q ?_⟩
    cases turn with
    | advance p => exact hq.advance rivals h p
    | wait now => exact ⟨hq.overtaken, hq.refused⟩

end Race

/-- That the session of an account is current and all that belongs to it is stored: its
passphrase, which is the only one, and its tokens. Joined texts come back when it is loaded. -/
structure IsKept (keeper : Keeper) (place : Location) (holds : Machine → Secret.Ledger → Prop)
    (session : AccountSession) (machine : Machine) : Prop where
  current : keeper.current?.exec machine = (.ok (some (Session.account session).recalled), machine)
  passphrase : ∃ ledger, holds machine ledger ∧ ∀ subject,
    (ledger keeper.passphraseService subject).isSome ↔ subject = session.subject
  tokens : session.subject ∈ tokenHolders machine place
  loaded : (Session.account session).IsJoined →
    ∃ after, keeper.load.exec machine = (.ok (some (.account session)), after)

theorem Race.Tallies.isKept {P : Type} {keepers : P → Keeper} {handles accounts : P → Text}
    {race : Race P} (rivals : Rivals keeper keepers handles accounts folder place holds)
    (h : Race.Tallies keeper handles accounts folder place holds mark books race) {p : P}
    {session : AccountSession} {rest : List (P × AccountSession)}
    (latest : race.returned = (p, session) :: rest) (q : P) :
    (keepers q).IsKept place holds session race.machine := by
  have told := h.latest
  rw [latest] at told
  obtain ⟨current, there, stored⟩ := told
  have balanced := h.balanced.shared (rivals.service q)
  obtain ⟨ledger, held, -, owners⟩ := balanced.secrets
  refine ⟨?_, ⟨ledger, held, fun subject => ?_⟩, h.balanced.tokens ▸ there, fun joined => ?_⟩
  · rw [current?_exec (rivals.stores q).index h.balanced.shows, current]
    rfl
  · rw [← owners, h.settled.owners, current, accountsOf_account, Set.mem_singleton_iff]
  · have lasting : IsLasting (.account session) := ⟨joined, trivial, fun _ ho => by cases ho⟩
    obtain ⟨after, loaded, -⟩ := ((stored joined).shared (rivals.service q)).load_exec
      (rivals.stores q) balanced.ground lasting
    exact ⟨after, loaded⟩

def servedBy (keeper : Keeper) (account : Text) : Keeper :=
  { keeper with factory := accountFactory account }

theorem accountFactory_serves {account : Text} (sound : IsAccount account) (handle : Text)
    {stores : OAuth.Stores} (tokens : stores.sessions = ⟨folder.child tokensName⟩) :
    (accountFactory account).Serves handle account stores folder place := by
  have loyal : (accountFactory account).IsLoyal stores folder place :=
    accountFactory_isLoyal sound tokens
  have name : Record.IsRecordName tokensName := ⟨⟨by decide, by decide⟩, ⟨by decide, by decide⟩⟩
  have put (machine : Machine) (h : Keepable folder place machine) : ∃ after,
      (stores.sessions.put account (.obj [("access_token", .str "t")])).exec machine =
        (.ok (), after) ∧ Keepable folder place after := by
    obtain ⟨entries, held⟩ := h.held
    obtain ⟨after, he, touched, left⟩ := Record.Store.put_of_holds h.ground name h.writable held
      account isRegular_accessToken.fits rfl
    rw [tokens]
    exact ⟨after, he, h.touched he touched left⟩
  refine ⟨loyal, fun machine h => ⟨h, _, rfl, loyal.made machine _ machine h.ground rfl,
    ?_, ?_, ?_, ?_⟩⟩
  · intro machine authorization after _ he
    exact Action.Yields.bind (P := fun _ _ => True) (R := fun found _ => found.subject = account)
      (fun _ _ _ => trivial) (fun _ _ _ => .pure rfl) authorization after he
  · intro other machine h
    obtain ⟨after, he, kept⟩ := put machine h
    dsimp only
    rw [Action.exec_bind_ok he]
    exact kept
  · intro machine h
    obtain ⟨after, he, -⟩ := put machine h
    have authorized := (loyal.made machine _ machine h.ground rfl).authorizes handle machine
      ⟨account, [("access_token", .str "t")]⟩ after h.ground ((Action.exec_bind_ok he).trans rfl)
    dsimp only
    rw [Action.exec_bind_ok he]
    show tokenHolders machine place \ {account} ⊆ tokenHolders after place
    rw [authorized.2]
    exact Set.sdiff_subset.trans (Set.subset_insert _ _)
  · intro subject machine h
    rw [tokens]
    exact tokens_remove_keepable h subject

/-- Keepers made alike are rivals when each one's client knows an account of its own. -/
theorem rivals_of_make {options : Options} {origin start : Machine}
    (made : (make folder options).exec origin = (.ok keeper, start))
    (service : options.secretService.IsJoined)
    (secrets : (options.secrets.getD (.ofVault (.inFolder folder))).Keeps folder place holds)
    (away : (options.secrets.getD (.ofVault (.inFolder folder))).KeepsAway folder) {P : Type}
    (handles : P → Text) {accounts : P → Text} (sound : ∀ p, IsAccount (accounts p))
    (apart : Function.Injective accounts) :
    Rivals keeper (fun p => keeper.servedBy (accounts p)) handles accounts folder place holds := by
  obtain ⟨own, -⟩ := madeIn_of_make made
  have serves (p : P) : (accountFactory (accounts p)).Serves (handles p).trim (accounts p)
      keeper.stores folder place := accountFactory_serves (sound p) _ own.tokens
  refine ⟨fun p => ⟨own.index, own.workers, own.tokens, own.lock, own.service ▸ service,
    own.secrets ▸ secrets, (serves p).toIsLoyal.isApart⟩, fun p => ⟨own.index, own.workers,
      own.tokens, own.lock, own.secrets ▸ away, ?_⟩, fun _ => rfl, serves, apart⟩
  exact accountFactory_keepsAway (accounts p) own.tokens

/-- From any state without a session on, however the parts of some logins follow each other: the
session of the login that returned last is the one that is kept; a login that was not yet checked
when another one had returned is refused; and a login that was checked and authorized returns if
only it is given the lock, whatever session is current by then. -/
theorem latest_login_is_kept {options : Options} {origin start looked : Machine}
    (made : (make folder options).exec origin = (.ok keeper, start))
    (ground : Ground origin folder place) (empty : ∀ name, origin.under place name = none)
    (clock : origin.now.IsSound) (service : options.secretService.IsJoined)
    (secrets : (options.secrets.getD (.ofVault (.inFolder folder))).Keeps folder place holds)
    (blank : holds origin .empty) (loyal : options.factory.IsLoyal keeper.stores folder place)
    {trace : Trace} (before : Run keeper (·.IsLoyal folder place) start trace scene)
    (joined : ∀ step ∈ trace, step.1.IsJoined)
    (out : keeper.current?.exec scene.machine = (.ok none, looked))
    (keepable : Keepable folder place scene.machine)
    {P : Type} [DecidableEq P] {keepers : P → Keeper} {handles accounts : P → Text}
    (rivals : Rivals keeper keepers handles accounts folder place holds)
    {clients : P → Option OAuth.Client} (present : ∀ p client, clients p = some client →
      client.Serves (handles p).trim (accounts p) folder place)
    (turns : List (Turn P)) (sound : ∀ turn ∈ turns, turn.IsSound) :
    let race := (Race.start scene.machine clients).run keepers handles turns
    (∀ p session, (p, session) ∈ race.returned ↔ race.stage p = .ended (.ok session)) ∧
    (∀ p session rest, race.returned = (p, session) :: rest →
      ∀ q, (keepers q).IsKept place holds session race.machine) ∧
    (race.returned ≠ [] → ∀ q, race.stage q = .waiting → ∀ more : List (Turn P),
      (∀ turn ∈ more, turn.IsSound) → (race.run keepers handles more).IsLate q) ∧
    ∀ q session marker taken, race.stage q = .authorized session →
      ((keepers q).lock.acquire lockKey).exec race.machine = (.ok marker, taken) →
        (race.advance keepers handles q).returned = (q, session) :: race.returned := by
  obtain ⟨own, mark, books, keeping, settled, -⟩ :=
    keeping_of_run made ground empty clock service secrets blank loyal before joined
  have none_current : books.current = none := by
    have found := current?_exec own.index keeping.machine.shows
    rw [out] at found
    simpa using (Except.ok.inj (Prod.mk.inj found).1).symm
  have first : Race.Tallies keeper handles accounts folder place holds mark books
      (Race.start scene.machine clients) :=
    { balanced := keeping.machine
      keepable
      settled
      clients := present
      authorized := fun _ _ hs => by cases hs
      listed := fun p session => by simp [Race.start]
      own := fun _ _ hs => by cases hs
      latest := none_current }
  intro race
  obtain ⟨⟨mark, left, tallies⟩, -⟩ := first.run rivals own turns sound
  refine ⟨tallies.listed, fun p session rest latest q => tallies.isKept rivals latest q,
    fun overtaken q waiting more sound => ?_, fun q session marker taken ready acquired => ?_⟩
  · exact (tallies.run rivals own more sound).2 q ⟨overtaken, .inl waiting⟩
  · have mine := tallies.balanced.shared (rivals.service q)
    have ended : ((keepers q).install session).Ends ⟨race.client q, race.machine⟩ _ :=
      install_ends (rivals.stores q) (rivals.lies q) (rivals.serves q) ⟨mine, tallies.clients q⟩
        tallies.keepable tallies.settled (tallies.authorized q session ready).2.1
    have returned := ended.machine
    unfold Settled at returned
    simp only [acquired] at returned
    rw [Race.advance_authorized ready]
    refine Race.settle_returned_ok _ _ _ ?_
    rw [returned.1]
    rfl

end

open scoped SessionKeeper.Runtime

/-- Two accounts that are logged in at once. -/
def rivalAccount (p : Bool) : Text := if p then "did:plc:b" else "did:plc:a"

/-- Both are checked, then both are authorized, and then each is given the lock. -/
def crossed : List (Turn Bool) :=
  [.advance false, .advance true, .advance false, .advance true, .advance false, .advance true]

/-- How two logins end that cross each other, on an empty folder. -/
def crossedRace : Race Bool := (Race.start steadyMade.2 fun _ => none).run
  (fun p => steadyKeeper.servedBy (rivalAccount p)) rivalAccount crossed

def Stage.session? : Stage → Option AccountSession
  | .ended (.ok session) => some session
  | _ => none

theorem Stage.eq_of_session? {stage : Stage} {session : AccountSession}
    (h : stage.session? = some session) : stage = .ended (.ok session) := by
  unfold session? at h
  split at h
  · rw [Option.some.inj h]
  · cases h

/-- Of two logins of different accounts that cross each other both return, and the session of the
first one is lost with its passphrase. -/
theorem both_logins_return :
    crossedRace.stage false = .ended (.ok ⟨"did:plc:a", "did:plc:a", some "p"⟩) ∧
    crossedRace.stage true = .ended (.ok ⟨"did:plc:b", "did:plc:b", some "p"⟩) ∧
    (steadyKeeper.load.exec crossedRace.machine).1.toOption =
      some (some (.account ⟨"did:plc:b", "did:plc:b", some "p"⟩)) ∧
    ((steadyKeeper.secrets.get? steadyKeeper.passphraseService "did:plc:a").exec
      crossedRace.machine).1.toOption = some none := by
  refine ⟨Stage.eq_of_session? ?_, Stage.eq_of_session? ?_, ?_, ?_⟩ <;> decide +kernel

theorem crossed_isSound : ∀ turn ∈ crossed, turn.IsSound := by
  intro turn hm
  simp only [crossed, List.mem_cons, List.not_mem_nil, or_false] at hm
  rcases hm with rfl | rfl | rfl | rfl | rfl | rfl <;> trivial

/-- After two logins of different accounts crossed each other, the second one's session is kept. -/
theorem later_login_is_kept : crossedRace.returned =
      [(true, ⟨"did:plc:b", "did:plc:b", some "p"⟩), (false, ⟨"did:plc:a", "did:plc:a", some "p"⟩)] ∧
    ∀ q, (steadyKeeper.servedBy (rivalAccount q)).IsKept ["home"] (Secret.Vault.HoldsLedger ["home"])
      ⟨"did:plc:b", "did:plc:b", some "p"⟩ crossedRace.machine := by
  have returned : crossedRace.returned = [(true, ⟨"did:plc:b", "did:plc:b", some "p"⟩),
      (false, ⟨"did:plc:a", "did:plc:a", some "p"⟩)] := by decide +kernel
  have made : (make ⟨"/", ["home"]⟩ { factory := steadyFactory }).exec Machine.bare =
      (.ok steadyKeeper, steadyMade.2) := (eq_ok_get _ : steadyMade = _)
  unfold crossedRace at returned ⊢
  generalize steadyMade.2 = start at made returned ⊢
  generalize steadyKeeper = keeper at made returned ⊢
  have rivals : Rivals keeper (fun p => keeper.servedBy (rivalAccount p)) rivalAccount rivalAccount
      ⟨"/", ["home"]⟩ ["home"] (Secret.Vault.HoldsLedger ["home"]) := by
    refine rivals_of_make made (by decide) (Secret.Vault.keeps _ _) (Secret.Vault.keepsAway _) _
      (fun p => ?_) fun p q => ?_
    · cases p
      · exact ⟨by decide, by decide⟩
      · exact ⟨by decide, by decide⟩
    · revert p q
      decide
  obtain ⟨own, same⟩ := madeIn_of_make made
  have blank : Secret.Vault.HoldsLedger ["home"] Machine.bare .empty :=
    ⟨[], .inl ⟨rfl, Machine.under_bare _⟩, rfl⟩
  have run : Run keeper (·.IsLoyal ⟨"/", ["home"]⟩ ["home"]) start [] ⟨none, start⟩ := .start
  have none_there (name : String) : start.under ["home"] name = none :=
    ((changedOnly_of_make made).under not_false).trans (Machine.under_bare name)
  have shows : Shows ⟨"/", ["home"]⟩ ["home"] none start :=
    .of_make made Machine.ground_bare Machine.under_bare isSound_bare
  have keepable : Keepable ⟨"/", ["home"]⟩ ["home"] start :=
    ⟨shows.orderly.ground, ⟨none_there _, fun mode h => by rw [none_there] at h; cases h⟩, [],
      .inl ⟨rfl, none_there _⟩⟩
  have kept := latest_login_is_kept made Machine.ground_bare Machine.under_bare isSound_bare
    (by decide) (Secret.Vault.keeps _ _) blank (steadyFactory_isLoyal own.tokens) run
    (fun _ hs => by cases hs) (current?_exec own.index shows) keepable rivals
    (show ∀ p client, (none : Option OAuth.Client) = some client → _ from
      fun _ _ hc => by cases hc) crossed crossed_isSound
  exact ⟨returned, kept.2.1 _ _ _ returned⟩

end SessionKeeper.Keeper
