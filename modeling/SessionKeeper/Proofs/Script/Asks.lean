import SessionKeeper.Keeper.Workers
import SessionKeeper.Proofs.Script.Passage

/-!
# What operations ask for

An operation can be described by the requests that it may make, whatever is answered. A glance is
a request that opens no file and no keychain, sends nothing and changes nothing. What reads asks
for one file, for the time and for notes in the log, and so it leaves everything as it is; who
looks at the locks asks, next to glances, for the files that have the names of markers.
-/
namespace SessionKeeper

/-- That a script makes no requests but those that are told. -/
def Script.Asks {α : Type} (P : Request → Prop) : Script α → Prop
  | .done _ => True
  | .ask request next => P request ∧ ∀ answer, (next answer).Asks P

theorem Script.Asks.bind {α β : Type} {P : Request → Prop} {x : Script α} {f : α → Script β}
    (hx : x.Asks P) (hf : ∀ a, (f a).Asks P) : (x.bind f).Asks P := by
  induction x with
  | done a => exact hf a
  | ask request next ih => exact ⟨hx.1, fun answer => ih answer (hx.2 answer)⟩

/-- That an operation makes no requests but those that are told. -/
def Action.Asks {α : Type} (P : Request → Prop) (action : Action α) : Prop := action.run.Asks P

namespace Action.Asks

variable {α β : Type} {P : Request → Prop}

theorem pure (a : α) : (Pure.pure a : Action α).Asks P := trivial

theorem throw (failure : Failure) : (MonadExcept.throw failure : Action α).Asks P := trivial

theorem ask {request : Request} (h : P request) : (Action.ask request).Asks P :=
  ⟨h, fun _ => trivial⟩

theorem bind {x : Action α} {f : α → Action β} (hx : x.Asks P) (hf : ∀ a, (f a).Asks P) :
    (x >>= f).Asks P := by
  refine Script.Asks.bind hx fun outcome => ?_
  cases outcome with
  | ok a => exact hf a
  | error failure => trivial

/-- What is asked for every member of a list is asked for the whole list. -/
theorem mapM {f : α → Action β} {xs : List α} (h : ∀ x ∈ xs, (f x).Asks P) :
    (xs.mapM f).Asks P := by
  induction xs with
  | nil => exact .pure _
  | cons x rest ih =>
    rw [List.mapM_cons]
    refine (h x List.mem_cons_self).bind fun _ => .bind (ih fun y hy => ?_) fun _ => .pure _
    exact h y (List.mem_cons_of_mem _ hy)

theorem forM {f : α → Action PUnit} {xs : List α} (h : ∀ x ∈ xs, (f x).Asks P) :
    (xs.forM f).Asks P := by
  induction xs with
  | nil => exact .pure _
  | cons x rest ih =>
    show (f x >>= fun _ => rest.forM f).Asks P
    refine (h x List.mem_cons_self).bind fun _ => ih fun y hy => ?_
    exact h y (List.mem_cons_of_mem _ hy)

theorem ofFile (result : Except FileFault α) : (Action.ofFile result).Asks P := by
  cases result with
  | ok a => exact .pure _
  | error fault => exact .throw _

theorem ofReading (schema : String) (result : Schema.Reading α) :
    (Action.ofReading schema result).Asks P := by
  cases result with
  | ok a => exact .pure _
  | error issues => exact .throw _

end Action.Asks

/-- That the log may be written. -/
abbrev Request.Logs (P : Request → Prop) : Prop := ∀ record, P (.emit (.log record))

/-- That a request has nothing to do with files or secrets, sends nothing and changes nothing, and
shows nothing but notes in the log. -/
def Request.IsAside : Request → Prop
  | .clock => True
  | .processId => True
  | .environment => True
  | .homeOf _ => True
  | .workingDirectory => True
  | .hasKeychain => True
  | .emit (.log _) => True
  | _ => False

/-- That all requests aside are allowed. -/
abbrev Request.Asides (P : Request → Prop) : Prop := ∀ request : Request, request.IsAside → P request

/-- That a request opens no file and no keychain, sends nothing and changes nothing, and shows
nothing but notes in the log. -/
def Request.IsGlance : Request → Prop
  | .probe _ => True
  | .listDirectory _ => True
  | request => request.IsAside

/-- That all glances are allowed. -/
abbrev Request.Glances (P : Request → Prop) : Prop :=
  ∀ request : Request, request.IsGlance → P request

open Request (Asides Glances Logs)

variable {P : Request → Prop}

theorem Request.Asides.logs (asides : Asides P) : Logs P := fun _ => asides _ trivial

theorem Request.Glances.asides (glances : Glances P) : Asides P := by
  intro request aside
  refine glances request ?_
  cases request <;> first | exact trivial | exact aside

theorem Request.Glances.logs (glances : Glances P) : Logs P := glances.asides.logs

namespace Folder

theorem isThere_asks (glances : Glances P) (path : Path) : (isThere path).Asks P := by
  refine .bind (.ask (glances _ trivial)) fun answer => ?_
  split
  · exact .pure _
  · exact .pure _
  · exact .pure _
  · exact .throw _

theorem isOccupied_asks (glances : Glances P) (path : Path) : (isOccupied path).Asks P := by
  refine .bind (.ask (glances _ trivial)) fun answer => ?_
  split
  · exact .pure _
  · exact .pure _
  · exact .pure _
  · exact .throw _

theorem makeWithin_asks (glances : Glances P) (makes : ∀ path mode, P (.makeDirectory path mode))
    (height : Nat) (path : Path) (mode : Nat) : (makeWithin height path mode).Asks P := by
  have accepts (path : Path) (fault : FileFault) : (accept path fault).Asks P := by
    refine (isThere_asks glances path).bind fun there => ?_
    split
    · exact .pure _
    · exact .throw _
  induction height generalizing path mode with
  | zero =>
    rw [makeWithin.eq_def]
    refine .bind (.ask (makes _ _)) fun answer => ?_
    split
    · exact .pure _
    · exact .throw _
    · exact accepts _ _
  | succ height ih =>
    rw [makeWithin.eq_def]
    refine .bind (.ask (makes _ _)) fun answer => ?_
    split
    · exact .pure _
    · refine (ih _ _).bind fun _ => .bind (.ask (makes _ _)) fun answer => ?_
      split
      · exact .pure _
      · exact .throw _
      · exact accepts _ _
    · exact accepts _ _

theorem ensure_asks (glances : Glances P) (makes : ∀ path mode, P (.makeDirectory path mode))
    (path : Path) : (ensure path).Asks P := makeWithin_asks glances makes _ path privateMode

end Folder

variable [Runtime]

theorem Record.read_asks (logs : Logs P) {path : Path} (file : P (.readFile path)) :
    (Record.read path).Asks P := by
  refine .bind (.ask file) fun content => ?_
  split
  · exact .pure _
  · exact .bind (.ask (logs _)) fun _ => .pure _
  · split
    · exact .throw _
    · exact .bind (.ask (logs _)) fun _ => .pure _
    · exact .pure _

namespace Record.Store

theorem entries_asks (logs : Logs P) {store : Store} (file : P (.readFile store.path)) :
    store.entries.Asks P := (read_asks logs file).bind fun _ => .pure _

theorem get?_asks (logs : Logs P) {store : Store} (file : P (.readFile store.path)) (key : Text) :
    (store.get? key).Asks P := (entries_asks logs file).bind fun _ => .pure _

end Record.Store

namespace Lock

theorem readMarkerAt_asks (logs : Logs P) {path : Path} (file : P (.readFile path)) :
    (readMarkerAt path).Asks P := by
  refine (Record.read_asks logs file).bind fun content => ?_
  split
  · split
    · exact .pure _
    · exact .bind (.ask (logs _)) fun _ => .pure _
  · exact .pure _

omit [Runtime] in
theorem ageOf_asks (marker : Marker) (now : Moment) : (ageOf marker now).Asks P := by
  unfold ageOf
  split
  · exact .pure _
  · exact .throw _

omit [Runtime] in
theorem isStale_asks (clock : P .clock) (lock : Lock) (marker : Marker) :
    (lock.isStale marker).Asks P :=
  .bind (.ask clock) fun _ => (ageOf_asks _ _).bind fun _ => .pure _

theorem markers_asks (glances : Glances P) {lock : Lock}
    (files : ∀ name, isMarkerName name = true → P (.readFile (lock.folder.child name))) :
    lock.markers.Asks P := by
  refine (Folder.isThere_asks glances _).bind fun there => ?_
  split
  · refine .bind (.ask (glances _ trivial)) fun answer => .bind (.ofFile answer) fun names => ?_
    refine .mapM fun name hn => ?_
    rw [List.mem_mergeSort, List.mem_filter] at hn
    exact (readMarkerAt_asks glances.logs (files name hn.2)).bind fun _ => .pure _
  · exact .pure _

end Lock

namespace Keeper

variable {keeper : Keeper}

omit [Runtime] in
theorem readAll_asks (logs : Logs P) {α : Type} (read : Json → Schema.Reading α) (warning : String)
    (values : List Json) : (readAll read warning values).Asks P := by
  induction values with
  | nil => exact .pure _
  | cons value rest ih =>
    unfold readAll
    split
    · exact ih.bind fun _ => .pure _
    · exact .bind (.ask (logs _)) fun _ => ih

theorem indexed_asks (logs : Logs P) (clock : P .clock) (file : P (.readFile keeper.index.path)) :
    keeper.indexed.Asks P :=
  .bind (.ask clock) fun _ => (Record.Store.entries_asks logs file).bind fun _ =>
    readAll_asks logs _ _ _

theorem current?_asks (logs : Logs P) (clock : P .clock) (file : P (.readFile keeper.index.path)) :
    keeper.current?.Asks P := by
  refine (indexed_asks logs clock file).bind fun sessions => ?_
  split
  · exact .pure _
  · exact .pure _
  · exact .bind (.ask (logs _)) fun _ => .pure _

theorem registered_asks (logs : Logs P) (clock : P .clock)
    (file : P (.readFile keeper.workers.path)) (worker : Worker) :
    (keeper.registered worker).Asks P := by
  refine (Record.Store.get?_asks logs file _).bind fun found => ?_
  split
  · exact .pure _
  · exact .pure _
  · refine .bind (.ask clock) fun now => ?_
    split
    · exact .pure _
    · exact .bind (.ask (logs _)) fun _ => .pure _

theorem fetchPassphrase_asks (logs : Logs P) (posts : ∀ request, P (.post request))
    (client : Keyserver.Client) (token : Option Text) : (client.fetchPassphrase token).Asks P := by
  have giveUp (cause : KeyserverFault) : (Keyserver.Client.giveUp cause : Action Text).Asks P :=
    .bind (.ask (logs _)) fun _ => .throw _
  rw [Keyserver.Client.fetchPassphrase]
  split
  · exact .throw _
  · dsimp only
    split
    · exact .throw _
    · refine .bind (.ask (posts _)) fun outcome => ?_
      split
      · exact giveUp _
      · split
        · exact giveUp _
        · split
          · exact .throw _
          · exact .pure _
          · exact .bind (.ask (logs _)) fun _ => .throw _

end Keeper

end SessionKeeper
