/-
  Ui/RunPage.lean --- the page that watches runs.

  Source: `appendEvent`, `renderRecord`, `show` and its listeners, and the handler of `cancel`,
  of app/ui/static/runs.js.

  `show` is called for a run while the page may still wait for the answers of an earlier call,
  and each call that gets both its answers opens a connection.  Only the last one that was
  opened is closed by the next call.  So where a run is chosen only when no call of `show` waits,
  the pane has the events of the chosen run and no others (`pane_follows_run`), and where one
  is, it may mix two runs (`two_clicks_mix`).

  A listener is a step, and the characters of a body arrive one at a time.
-/
import Mathlib.Data.List.Perm.Basic
import SeapathWebui.Runs.Progress
import SeapathWebui.Runs.Wire

set_option autoImplicit false

namespace SeapathWebui.Ui

open SeapathWebui.Foundation SeapathWebui.Foundation.EventSource SeapathWebui.Runs

variable {E : Type*}

/-! ## The pane -/

/-- A line of the pane: the kind and the outcome that its classes name, its text, and the reason
under it. -/
structure Line where
  kind : String
  outcome : Option Outcome := none
  text : String
  reason : Option String := none
  deriving DecidableEq

/-- The text of an outcome. -/
def outcomeText : Outcome → String
  | .ok => "ok"
  | .changed => "changed"
  | .failed => "failed"
  | .skipped => "skipped"
  | .unreachable => "unreachable"

/-- A text that may be missing, where it is concatenated. -/
def orNull (text : Option String) : String := text.getD "null"

/-- `padEnd` -/
def padEnd (width : Nat) (s : String) : String :=
  s ++ String.ofList (List.replicate (width - s.length) ' ')

/-- The line of `appendEvent`. -/
def line : Summary → Line
  | .play play => { kind := "play", text := "PLAY  " ++ orNull play }
  | .task task _ => { kind := "task", text := "TASK  " ++ orNull task }
  | .result host task outcome message =>
      { kind := "result"
        outcome := some outcome
        text := padEnd 12 (outcomeText outcome) ++ orNull host ++ "  " ++ task.getD ""
        reason := message.filter (· ≠ "") }
  | .stats _ => { kind := "stats", text := "RECAP" }

/-- What `appendEvent` was called for; the pane does not tell. -/
inductive Entry
  | event (line : Line)
  /-- a cancel request that was refused -/
  | notice (line : Line)
  deriving DecidableEq

/-- The line of an event. -/
def Entry.event? : Entry → Option Line
  | .event line => some line
  | .notice _ => none

/-- The lines of events. -/
def eventLines (pane : List Entry) : List Line := pane.filterMap Entry.event?

@[simp] theorem eventLines_append (pane more : List Entry) :
    eventLines (pane ++ more) = eventLines pane ++ eventLines more :=
  List.filterMap_append

@[simp] theorem eventLines_map_event (lines : List Line) :
    eventLines (lines.map .event) = lines := by
  rw [eventLines, List.filterMap_map]
  exact List.filterMap_some

/-! ## The page -/

/-- An `EventSource`. -/
structure Source (E : Type*) where
  run : RunId
  connection : Connection E := .start 0
  closed : Bool := false

/-- What waits for an answer of the server. -/
inductive Waiting
  /-- `show`, for the record -/
  | record (i : RunId)
  /-- `show`, for the list -/
  | list (i : RunId)
  /-- the listener of `state`, for the record -/
  | refresh (i : RunId)
  deriving DecidableEq

/-- The run it waits for. -/
def Waiting.run : Waiting → RunId
  | .record i => i
  | .list i => i
  | .refresh i => i

/-- It will open a connection. -/
def Waiting.opens : Waiting → Bool
  | .record _ => true
  | .list _ => true
  | .refresh _ => false

/-- The page: its `state`, what it shows, the connections it opened and what it waits for. -/
structure RunsPage (E : Type*) where
  current : Option RunId := none
  source : Option Nat := none
  seen : Nat := 0
  pane : List Entry := []
  record : Option RunRecord := none
  hosts : Dict String HostProgress := ∅
  sources : List (Source E) := []
  waiting : List Waiting := []

/-- `source.close()` -/
def RunsPage.close (p : RunsPage E) (k : Nat) : RunsPage E :=
  { p with sources := p.sources.modify k fun source => { source with closed := true } }

/-- `renderRecord` -/
def RunsPage.renderRecord (p : RunsPage E) (r : RunRecord) : RunsPage E :=
  { p with record := some r, hosts := r.progress.hosts }

/-- The connection that the page has is closed. -/
def RunsPage.closeSource (p : RunsPage E) : RunsPage E :=
  match p.source with
  | none => p
  | some k => { p.close k with source := none }

/-- `show`, up to its first answer. -/
def RunsPage.show (p : RunsPage E) (i : RunId) : RunsPage E :=
  { p.closeSource with
    current := some i
    seen := 0
    pane := []
    waiting := p.waiting ++ [.record i] }

/-- The record that was asked for arrives, or the request fails. -/
def RunsPage.answer (p : RunsPage E) (n : Nat) (answer : Option RunRecord) : RunsPage E :=
  match answer with
  | none => { p with waiting := p.waiting.eraseIdx n }
  | some r =>
      match p.waiting[n]? with
      | some (.record i) => { p.renderRecord r with waiting := p.waiting.set n (.list i) }
      | some (.refresh _) => { p.renderRecord r with waiting := p.waiting.eraseIdx n }
      | some (.list _) | none => p

/-- The list arrives, and `show` opens a connection. -/
def RunsPage.open (p : RunsPage E) (n : Nat) (i : RunId) : RunsPage E :=
  { p with
    source := some p.sources.length
    sources := p.sources ++ [{ run := i }]
    waiting := p.waiting.eraseIdx n }

/-- `onmessage` and the listener of `state`, of a connection; `view` reads an event. -/
def RunsPage.handle (enc : Encoding E) (view : E → Summary) (k : Nat) (i : RunId)
    (p : RunsPage E) (x : Heard) : RunsPage E :=
  if x.name = "message" then
    { p with
      seen := p.seen + 1
      pane := p.pane ++ ((enc.parse x.data).toList.map fun e => line (view e)).map .event }
  else if x.name = "state" then
    match enc.parseFinal x.data with
    | none => p
    | some verdict =>
        { p.close k with
          hosts := verdict.hosts
          source := none
          waiting := p.waiting ++ [.refresh i] }
  else p

/-- `onerror` -/
def RunsPage.fail (p : RunsPage E) (k : Nat) : RunsPage E := { p.close k with source := none }

/-- The handler of `cancel`, of a request that was refused. -/
def RunsPage.refuse (p : RunsPage E) (message : String) : RunsPage E :=
  { p with pane := p.pane ++ [.notice (line (.task (some message) none))] }

/-! ## The page and the runs -/

/-- The events of the runs, and a page. -/
structure RunView (E : Type*) where
  written : RunId → List E := fun _ => []
  page : RunsPage E := {}

/-- The connection under a number changes. -/
def RunView.change (s : RunView E) (k : Nat) (f : Connection E → Connection E) : RunView E :=
  { s with page := { s.page with
    sources := s.page.sources.modify k fun source =>
      { source with connection := f source.connection } } }

/-- A step of a run, of a generator, of the network, or of the page. -/
inductive RunViewStep (E : Type*)
  /-- `append_event` -/
  | append (i : RunId) (e : E)
  /-- a generator reads the file, and sees this much of it -/
  | poll (k : Nat) (snapshot : String)
  /-- a generator finds the run finished -/
  | judge (k : Nat) (verdict : Final)
  /-- the next character of a body -/
  | deliver (k : Nat) (c : Char)
  | fail (k : Nat)
  /-- a call of `show` -/
  | choose (i : RunId)
  | answer (n : Nat) (answer : Option RunRecord)
  | list (n : Nat) (arrived : Bool)
  | refuse (message : String)

/-- One step.  Nothing of a connection that was closed reaches the page. -/
def runViewStep (enc : Encoding E) (view : E → Summary) (s : RunView E) :
    RunViewStep E → Option (RunView E)
  | .append i e => some { s with written := Function.update s.written i (s.written i ++ [e]) }
  | .poll k snapshot =>
      match s.page.sources[k]? with
      | none => none
      | some source =>
          if source.connection.verdict = none ∧
              snapshot.toList <+: (eventsText enc.json (s.written source.run)).toList then
            some (s.change k (·.poll enc snapshot))
          else none
  | .judge k verdict =>
      match s.page.sources[k]? with
      | none => none
      | some source =>
          if source.connection.verdict = none then some (s.change k (·.judge verdict)) else none
  | .deliver k c =>
      match s.page.sources[k]? with
      | none => none
      | some source =>
          if source.closed = false ∧
              source.connection.received ++ [c] <+: bodyText enc source.connection.sent then
            let heard := (source.connection.deliver [c]).heard.drop source.connection.heard.length
            let t := s.change k (·.deliver [c])
            some { t with page := heard.foldl (RunsPage.handle enc view k source.run) t.page }
          else none
  | .fail k =>
      match s.page.sources[k]? with
      | none => none
      | some source =>
          if source.closed = false then some { s with page := s.page.fail k } else none
  | .choose i => some { s with page := s.page.show i }
  | .answer n answer =>
      match s.page.waiting[n]? with
      | none => none
      | some waiting =>
          if answer.all (·.id = waiting.run) then some { s with page := s.page.answer n answer }
          else none
  | .list n arrived =>
      match s.page.waiting[n]? with
      | some (.list i) =>
          if arrived then some { s with page := s.page.open n i }
          else some { s with page := { s.page with waiting := s.page.waiting.eraseIdx n } }
      | _ => none
  | .refuse message => some { s with page := s.page.refuse message }

/-- A run is chosen when no call of `show` waits. -/
def Settled (s : RunView E) : RunViewStep E → Prop
  | .choose _ => ∀ w ∈ s.page.waiting, w.opens = false
  | _ => True

/-! ## What holds of the page -/

section Invariant

variable {enc : Encoding E} {view : E → Summary}

/-- The pane has what was heard of the connection. -/
structure RunsPage.Watches (enc : Encoding E) (view : E → Summary) (p : RunsPage E)
    (source : Source E) : Prop where
  current : p.current = some source.run
  pane : eventLines p.pane = (payloads enc source.connection.heard).map fun e => line (view e)
  seen : p.seen = source.connection.heard.countP (·.name = "message")

/-- The connection carries its run from the first event on. -/
structure Source.Sound (enc : Encoding E) (written : RunId → List E) (source : Source E) :
    Prop where
  offset : source.connection.offset = 0
  carries : source.connection.Carries enc (written source.run)

/-- The pane has the first events of the run, as many as were seen. -/
def RunsPage.Shows (view : E → Summary) (p : RunsPage E) (written : List E) : Prop :=
  eventLines p.pane = ((written.take p.seen).map fun e => line (view e)) ∧
    p.seen ≤ written.length

/-- At most one connection is open, the page has it, and it is of the chosen run; and none is
while a call of `show` waits. -/
structure RunView.Invariant (enc : Encoding E) (view : E → Summary) (s : RunView E) : Prop where
  sound : ∀ (k : Nat) (source : Source E), s.page.sources[k]? = some source →
    source.Sound enc s.written
  opened : ∀ (k : Nat) (source : Source E), s.page.sources[k]? = some source →
    source.closed = false → s.page.source = some k
  watched : ∀ (k : Nat) (source : Source E), s.page.source = some k →
    s.page.sources[k]? = some source → s.page.Watches enc view source
  waits : ∀ w ∈ s.page.waiting, w.opens = true →
    s.page.current = some w.run ∧ s.page.source = none ∧ s.page.seen = 0 ∧
      eventLines s.page.pane = []
  single : s.page.waiting.countP Waiting.opens ≤ 1
  shows : ∀ i, s.page.current = some i → s.page.Shows view (s.written i)

theorem start_runViewInvariant : ({} : RunView E).Invariant enc view where
  sound _ _ h := nomatch h
  opened _ _ h := nomatch h
  watched _ _ h := nomatch h
  waits _ h := nomatch h
  single := Nat.zero_le _
  shows _ h := nomatch h

theorem getElem?_modify_eq_some {sources : List (Source E)} {f : Source E → Source E}
    {k j : Nat} {t : Source E} (h : (sources.modify k f)[j]? = some t) :
    ∃ source, sources[j]? = some source ∧ t = if k = j then f source else source := by
  rw [List.getElem?_modify] at h
  obtain ⟨source, hsource, rfl⟩ := Option.map_eq_some_iff.mp h
  exact ⟨source, hsource, rfl⟩

/-- What is heard of a connection from the first event on is the first events of its run. -/
theorem RunsPage.Watches.shows (henc : enc.Faithful) {p : RunsPage E} {source : Source E}
    {written : RunId → List E} (h : p.Watches enc view source)
    (hsound : source.Sound enc written) : p.Shows view (written source.run) := by
  have hinit := hsound.carries.payloads henc
  have hlength := hinit.length_le
  rw [hsound.offset, List.drop_zero] at hinit hlength
  rw [List.length_take_of_le hsound.carries.index_le] at hlength
  have hseen := h.seen.trans (hsound.carries.countP_heard henc)
  have hpayloads := List.prefix_iff_eq_take.mp (hinit.trans (List.take_prefix _ _))
  refine ⟨?_, ?_⟩
  · rw [h.pane, hseen, ← hpayloads]
  · rw [hseen]
    exact hlength.trans hsound.carries.index_le

/-- What was written of each run is there when more is. -/
theorem exists_update (written : RunId → List E) (i j : RunId) (e : E) :
    ∃ more, Function.update written i (written i ++ [e]) j = written j ++ more := by
  by_cases hrun : j = i
  · subst hrun
    exact ⟨[e], Function.update_self _ _ _⟩
  · exact ⟨[], by rw [Function.update_of_ne hrun, List.append_nil]⟩

theorem RunsPage.Shows.append {p : RunsPage E} {written : List E} (h : p.Shows view written)
    (more : List E) : p.Shows view (written ++ more) := by
  obtain ⟨hpane, hseen⟩ := h
  refine ⟨?_, ?_⟩
  · rw [List.take_append_of_le_length hseen]
    exact hpane
  · rw [List.length_append]
    exact Nat.le_add_right_of_le hseen

/-- An event that is appended does not change what is shown. -/
theorem RunView.Invariant.append {s : RunView E} (hs : s.Invariant enc view) (i : RunId) (e : E) :
    RunView.Invariant enc view
      { s with written := Function.update s.written i (s.written i ++ [e]) } where
  sound k source hsource := by
    obtain ⟨hoffset, hcarries⟩ := hs.sound k source hsource
    obtain ⟨more, hmore⟩ := exists_update s.written i source.run e
    refine ⟨hoffset, ?_⟩
    change source.connection.Carries enc (Function.update s.written i _ source.run)
    rw [hmore]
    exact hcarries.append more
  opened := hs.opened
  watched := hs.watched
  waits := hs.waits
  single := hs.single
  shows j hj := by
    obtain ⟨more, hmore⟩ := exists_update s.written i j e
    change s.page.Shows view (Function.update s.written i _ j)
    rw [hmore]
    exact (hs.shows j hj).append more

/-- A generator that sends, and nothing of it has arrived. -/
theorem RunView.Invariant.change {s : RunView E} (hs : s.Invariant enc view) {k : Nat}
    {f : Connection E → Connection E}
    (hf : ∀ source, s.page.sources[k]? = some source →
      (f source.connection).offset = 0 ∧ (f source.connection).Carries enc (s.written source.run) ∧
        (f source.connection).heard = source.connection.heard) :
    (s.change k f).Invariant enc view where
  sound j t ht := by
    obtain ⟨source, hsource, rfl⟩ := getElem?_modify_eq_some ht
    split
    · rename_i hkj
      obtain ⟨hoffset, hcarries, -⟩ := hf source (hkj ▸ hsource)
      exact ⟨hoffset, hcarries⟩
    · exact hs.sound j source hsource
  opened j t ht hopen := by
    obtain ⟨source, hsource, rfl⟩ := getElem?_modify_eq_some ht
    refine hs.opened j source hsource ?_
    split at hopen
    all_goals exact hopen
  watched j t hj ht := by
    obtain ⟨source, hsource, rfl⟩ := getElem?_modify_eq_some ht
    have hwatched := hs.watched j source hj hsource
    split
    · rename_i hkj
      obtain ⟨-, -, hheard⟩ := hf source (hkj ▸ hsource)
      refine ⟨hwatched.current, ?_, ?_⟩
      · rw [hheard]
        exact hwatched.pane
      · rw [hheard]
        exact hwatched.seen
    · exact ⟨hwatched.current, hwatched.pane, hwatched.seen⟩
  waits := hs.waits
  single := hs.single
  shows := hs.shows

/-- When the open connection is closed, none is open. -/
theorem RunView.Invariant.close {s : RunView E} (hs : s.Invariant enc view) {k : Nat}
    (hk : s.page.source = some k) {waiting : List Waiting}
    (hwaiting : waiting.countP Waiting.opens = 0) (hosts : Dict String HostProgress) :
    RunView.Invariant enc view
      { s with page := { s.page.close k with
        source := none, hosts := hosts, waiting := waiting } } where
  sound j t ht := by
    obtain ⟨source, hsource, rfl⟩ := getElem?_modify_eq_some ht
    have hsound := hs.sound j source hsource
    split
    · exact ⟨hsound.offset, hsound.carries⟩
    · exact hsound
  opened j t ht hopen := by
    obtain ⟨source, hsource, rfl⟩ := getElem?_modify_eq_some ht
    split at hopen
    · cases hopen
    · rename_i hne
      have hj := hs.opened j source hsource hopen
      rw [hk] at hj
      exact absurd (Option.some.inj hj) hne
  watched _ _ h := nomatch h
  waits w hw hopens := absurd hopens (by simpa using List.countP_eq_zero.mp hwaiting w hw)
  single := hwaiting.le.trans (Nat.zero_le _)
  shows := hs.shows

/-- While a connection is open, no call of `show` waits. -/
theorem RunView.Invariant.none_opens {s : RunView E} (hs : s.Invariant enc view) {k : Nat}
    (hk : s.page.source = some k) : s.page.waiting.countP Waiting.opens = 0 := by
  refine List.countP_eq_zero.mpr fun w hw hopens => ?_
  rw [(hs.waits w hw hopens).2.1] at hk
  cases hk

/-- Something is no longer waited for, or is waited for otherwise. -/
theorem RunView.Invariant.wait {s : RunView E} (hs : s.Invariant enc view) {waiting : List Waiting}
    (hmem : ∀ w ∈ waiting, w.opens = true → ∃ v ∈ s.page.waiting, v.opens = true ∧ v.run = w.run)
    (hcount : waiting.countP Waiting.opens ≤ 1) (record : Option RunRecord)
    (hosts : Dict String HostProgress) :
    RunView.Invariant enc view
      { s with page := { s.page with record := record, hosts := hosts, waiting := waiting } } where
  sound := hs.sound
  opened := hs.opened
  watched k source hk hsource := by
    obtain ⟨hcurrent, hpane, hseen⟩ := hs.watched k source hk hsource
    exact ⟨hcurrent, hpane, hseen⟩
  waits w hw hopens := by
    obtain ⟨v, hv, hvopens, hrun⟩ := hmem w hw hopens
    have hwaits := hs.waits v hv hvopens
    rw [hrun] at hwaits
    exact hwaits
  single := hcount
  shows := hs.shows

/-- It is no longer waited for. -/
theorem RunView.Invariant.erase {s : RunView E} (hs : s.Invariant enc view) (n : Nat)
    (record : Option RunRecord) (hosts : Dict String HostProgress) :
    RunView.Invariant enc view
      { s with page := { s.page with
        record := record, hosts := hosts, waiting := s.page.waiting.eraseIdx n } } :=
  hs.wait (fun w hw hopens => ⟨w, List.mem_of_mem_eraseIdx hw, hopens, rfl⟩)
    (((List.eraseIdx_sublist _ _).countP_le).trans hs.single) record hosts

/-- A call of `show` that waits for the list opens its connection. -/
theorem RunView.Invariant.opens {s : RunView E} (hs : s.Invariant enc view) {n : Nat} {i : RunId}
    (hn : s.page.waiting[n]? = some (.list i)) :
    RunView.Invariant enc view { s with page := s.page.open n i } := by
  obtain ⟨hcurrent, hclosed, hseen, hpane⟩ := hs.waits _ (List.mem_of_getElem? hn) rfl
  have hlast : ∀ (k : Nat) (t : Source E), (s.page.sources ++ [{ run := i }])[k]? = some t →
      s.page.sources[k]? = some t ∨ (k = s.page.sources.length ∧ t = { run := i }) := by
    intro k t ht
    rcases lt_or_ge k s.page.sources.length with hlt | hge
    · exact .inl (by rwa [List.getElem?_append_left hlt] at ht)
    · rw [List.getElem?_append_right hge, List.getElem?_singleton] at ht
      obtain ⟨hzero, ht⟩ := Option.ite_none_right_eq_some.mp ht
      exact .inr ⟨by omega, (Option.some.inj ht).symm⟩
  have hrest : (s.page.waiting.eraseIdx n).countP Waiting.opens = 0 := by
    obtain ⟨hlt, hget⟩ := List.getElem?_eq_some_iff.mp hn
    have hsplit := (List.getElem_cons_eraseIdx_perm hlt).countP_eq Waiting.opens
    rw [hget, List.countP_cons_of_pos rfl] at hsplit
    have hsingle := hs.single
    omega
  refine ⟨fun k t ht => ?_, fun k t ht hopen => ?_, fun k t hk ht => ?_, fun w hw hopens => ?_,
    hrest.le.trans (Nat.zero_le _), hs.shows⟩
  · rcases hlast k t ht with hbefore | ⟨-, rfl⟩
    · exact hs.sound k t hbefore
    · exact ⟨rfl, carries_start (Nat.zero_le _)⟩
  · rcases hlast k t ht with hbefore | ⟨rfl, -⟩
    · have hother := hs.opened k t hbefore hopen
      rw [hclosed] at hother
      cases hother
    · rfl
  · rcases hlast k t ht with hbefore | ⟨-, rfl⟩
    · have hlt := (List.getElem?_eq_some_iff.mp hbefore).1
      have hlength := Option.some.inj hk
      omega
    · refine ⟨hcurrent, ?_, hseen⟩
      change eventLines s.page.pane = _
      rw [hpane]
      rfl
  · exact absurd hopens (by simpa using List.countP_eq_zero.mp hrest w hw)

/-- A run is chosen: the connection that is open is closed. -/
theorem RunView.Invariant.show {s : RunView E} (hs : s.Invariant enc view)
    (hsettled : ∀ w ∈ s.page.waiting, w.opens = false) (i : RunId) :
    RunView.Invariant enc view { s with page := s.page.show i } := by
  have hnone : s.page.waiting.countP Waiting.opens = 0 :=
    List.countP_eq_zero.mpr fun w hw => by simp [hsettled w hw]
  have hclosed : s.page.closeSource.source = none ∧
      RunView.Invariant enc view { s with page := s.page.closeSource } := by
    cases hk : s.page.source with
    | none =>
        rw [RunsPage.closeSource, hk]
        exact ⟨hk, hs⟩
    | some k =>
        rw [RunsPage.closeSource, hk]
        exact ⟨rfl, hs.close hk hnone s.page.hosts⟩
  obtain ⟨hsource, hp⟩ := hclosed
  refine ⟨hp.sound, hp.opened, fun k t hk => ?_, fun w hw hopens => ?_, ?_, fun j hj => ?_⟩
  · change s.page.closeSource.source = some k at hk
    rw [hsource] at hk
    cases hk
  · rcases List.mem_append.mp hw with hbefore | hlast
    · rw [hsettled w hbefore] at hopens
      cases hopens
    · rw [List.mem_singleton.mp hlast]
      exact ⟨rfl, hsource, rfl, rfl⟩
  · change (s.page.waiting ++ [Waiting.record i]).countP Waiting.opens ≤ 1
    rw [List.countP_append, hnone]
    exact le_rfl
  · exact ⟨rfl, Nat.zero_le _⟩

/-- More of the open connection is heard, and the page shows it. -/
theorem RunView.Invariant.hear (henc : enc.Faithful) {s : RunView E} (hs : s.Invariant enc view)
    {k : Nat} {source : Source E} (hk : s.page.sources[k]? = some source)
    (hopen : source.closed = false) {f : Connection E → Connection E}
    (hsound : Source.Sound enc s.written { source with connection := f source.connection })
    {p : RunsPage E} (hsources : p.sources = (s.change k f).page.sources)
    (hsource : p.source = s.page.source) (hwaiting : p.waiting = s.page.waiting)
    (hwatches : p.Watches enc view { source with connection := f source.connection }) :
    RunView.Invariant enc view { s with page := p } := by
  have hcurrent := hs.opened k source hk hopen
  have hnone := hs.none_opens hcurrent
  have hmodified : ∀ (j : Nat) (t : Source E), p.sources[j]? = some t →
      (j = k ∧ t = { source with connection := f source.connection }) ∨
        (j ≠ k ∧ s.page.sources[j]? = some t) := by
    intro j t ht
    rw [hsources] at ht
    obtain ⟨other, hother, rfl⟩ := getElem?_modify_eq_some ht
    split
    · rename_i hkj
      subst hkj
      rw [hk] at hother
      obtain rfl := Option.some.inj hother
      exact .inl ⟨rfl, rfl⟩
    · rename_i hkj
      exact .inr ⟨Ne.symm hkj, hother⟩
  refine ⟨fun j t ht => ?_, fun j t ht hclosed => ?_, fun j t hj ht => ?_, fun w hw hopens => ?_,
    ?_, fun i hi => ?_⟩
  · rcases hmodified j t ht with ⟨-, rfl⟩ | ⟨-, hbefore⟩
    · exact hsound
    · exact hs.sound j t hbefore
  · rcases hmodified j t ht with ⟨rfl, -⟩ | ⟨-, hbefore⟩
    · exact hsource.trans hcurrent
    · exact hsource.trans (hs.opened j t hbefore hclosed)
  · have hkj : j = k := Option.some.inj (hj.symm.trans (hsource.trans hcurrent))
    rcases hmodified j t ht with ⟨-, rfl⟩ | ⟨hne, -⟩
    · exact hwatches
    · exact absurd hkj hne
  · rw [← hwaiting] at hnone
    exact absurd hopens (by simpa using List.countP_eq_zero.mp hnone w hw)
  · change p.waiting.countP Waiting.opens ≤ 1
    rw [hwaiting]
    exact hs.single
  · have hrun : source.run = i := Option.some.inj (hwatches.current.symm.trans hi)
    exact hrun ▸ hwatches.shows henc hsound

/-- A character arrives, and the listeners are called for what is heard. -/
theorem RunView.Invariant.deliver (henc : enc.Faithful) {s : RunView E}
    (hs : s.Invariant enc view) {k : Nat} {source : Source E} {c : Char}
    (hk : s.page.sources[k]? = some source) (hopen : source.closed = false)
    (hmore : source.connection.received ++ [c] <+: bodyText enc source.connection.sent) :
    RunView.Invariant enc view { s with
      page := ((source.connection.deliver [c]).heard.drop source.connection.heard.length).foldl
        (RunsPage.handle enc view k source.run) (s.change k (·.deliver [c])).page } := by
  have hsound : Source.Sound enc s.written
      { source with connection := source.connection.deliver [c] } :=
    ⟨(hs.sound k source hk).offset, (hs.sound k source hk).carries.deliver hmore⟩
  have hcurrent := hs.opened k source hk hopen
  have hwatched := hs.watched k source hcurrent hk
  have hnone := hs.none_opens hcurrent
  have hstep : (source.connection.deliver [c]).heard = source.connection.heard ∨
      ∃ x, (source.connection.deliver [c]).heard = source.connection.heard ++ [x] := by
    rw [Connection.heard, Connection.heard, Connection.deliver, read_append]
    exact heard_step _ c
  -- where no event is heard, the pane is that of what was heard before
  have hquiet : payloads enc (source.connection.deliver [c]).heard =
      payloads enc source.connection.heard →
      (source.connection.deliver [c]).heard.countP (·.name = "message") =
        source.connection.heard.countP (·.name = "message") →
      RunView.Invariant enc view (s.change k (·.deliver [c])) := by
    intro hpayloads hcount
    refine hs.hear henc hk hopen hsound rfl rfl rfl ⟨hwatched.current, ?_, ?_⟩
    · exact hwatched.pane.trans (congrArg _ hpayloads.symm)
    · exact hwatched.seen.trans hcount.symm
  rcases hstep with hsame | ⟨x, hheard⟩
  · have hdrop : (source.connection.deliver [c]).heard.drop source.connection.heard.length =
        [] := by
      rw [hsame, List.drop_length]
    rw [hdrop]
    exact hquiet (by rw [hsame]) (by rw [hsame])
  · have hdrop : (source.connection.deliver [c]).heard.drop source.connection.heard.length =
        [x] := by
      rw [hheard, List.drop_left]
    have hpayloads : payloads enc (source.connection.deliver [c]).heard =
        payloads enc source.connection.heard ++
          (if x.name = "message" then enc.parse x.data else none).toList := by
      rw [hheard, payloads, List.filterMap_append, ← payloads, ← payloads, payloads_cons]
      exact congrArg _ (List.append_nil _)
    rw [hdrop, List.foldl_cons, List.foldl_nil, RunsPage.handle]
    by_cases hmessage : x.name = "message"
    · rw [if_pos hmessage]
      rw [if_pos hmessage] at hpayloads
      refine hs.hear henc hk hopen hsound rfl rfl rfl ⟨hwatched.current, ?_, ?_⟩
      · change eventLines (s.page.pane ++ _) = _
        rw [eventLines_append, eventLines_map_event, hwatched.pane, hpayloads, List.map_append]
      · change s.page.seen + 1 = _
        rw [hwatched.seen, hheard, List.countP_append, List.countP_singleton,
          if_pos (by simpa using hmessage)]
    · rw [if_neg hmessage, Option.toList_none, List.append_nil] at hpayloads
      have hcount : (source.connection.deliver [c]).heard.countP (·.name = "message") =
          source.connection.heard.countP (·.name = "message") := by
        rw [hheard, List.countP_append, List.countP_singleton, if_neg (by simpa using hmessage),
          Nat.add_zero]
      have hchanged := hquiet hpayloads hcount
      rw [if_neg hmessage]
      split
      · split
        · exact hchanged
        · rename_i verdict _
          have hrefresh :
              (s.page.waiting ++ [Waiting.refresh source.run]).countP Waiting.opens = 0 := by
            rw [List.countP_append, hnone]
            rfl
          exact hchanged.close hcurrent hrefresh verdict.hosts
      · exact hchanged

/-- An answer arrives, or the request fails. -/
theorem RunView.Invariant.answer {s : RunView E} (hs : s.Invariant enc view) {n : Nat}
    {waiting : Waiting} (hn : s.page.waiting[n]? = some waiting) (answer : Option RunRecord) :
    RunView.Invariant enc view { s with page := s.page.answer n answer } := by
  cases answer with
  | none => exact hs.erase n s.page.record s.page.hosts
  | some r =>
      unfold RunsPage.answer
      rw [hn]
      cases waiting with
      | list i => exact hs
      | refresh i => exact hs.erase n (some r) r.progress.hosts
      | record i =>
          have hmem := List.mem_of_getElem? hn
          refine hs.wait (fun w hw hopens => ?_) ?_ (some r) r.progress.hosts
          · rcases List.mem_or_eq_of_mem_set hw with hbefore | rfl
            · exact ⟨w, hbefore, hopens, rfl⟩
            · exact ⟨.record i, hmem, rfl, rfl⟩
          · obtain ⟨hlt, hget⟩ := List.getElem?_eq_some_iff.mp hn
            rw [List.countP_set hlt, hget]
            have hsingle := hs.single
            have hpos : 0 < s.page.waiting.countP Waiting.opens :=
              List.countP_pos_iff.mpr ⟨_, hmem, rfl⟩
            simp only [Waiting.opens, if_true]
            omega

/-- A notice is not the line of an event. -/
theorem RunView.Invariant.refuse {s : RunView E} (hs : s.Invariant enc view) (message : String) :
    RunView.Invariant enc view { s with page := s.page.refuse message } := by
  have hpane : eventLines (s.page.refuse message).pane = eventLines s.page.pane := by
    rw [RunsPage.refuse, eventLines_append]
    exact List.append_nil _
  refine ⟨hs.sound, hs.opened, fun k source hk hsource => ?_, fun w hw hopens => ?_, hs.single,
    fun i hi => ?_⟩
  · have hwatched := hs.watched k source hk hsource
    exact ⟨hwatched.current, hpane.trans hwatched.pane, hwatched.seen⟩
  · obtain ⟨hcurrent, hclosed, hseen, hempty⟩ := hs.waits w hw hopens
    exact ⟨hcurrent, hclosed, hseen, hpane.trans hempty⟩
  · obtain ⟨hlines, hseen⟩ := hs.shows i hi
    exact ⟨hpane.trans hlines, hseen⟩

/-- Step lemma: where a run is chosen only when no call of `show` waits, each step keeps the
invariant. -/
theorem runViewStep_invariant (henc : enc.Faithful) {s t : RunView E} {a : RunViewStep E}
    (hs : s.Invariant enc view) (hsettled : Settled s a)
    (hwords : ∀ k verdict, a = .judge k verdict → enc.Says verdict)
    (h : runViewStep enc view s a = some t) : t.Invariant enc view := by
  cases a with
  | append i e =>
      obtain rfl := Option.some.inj h
      exact hs.append i e
  | poll k snapshot =>
      simp only [runViewStep] at h
      split at h
      · cases h
      · rename_i source hk
        obtain ⟨⟨hopen, hinitial⟩, ht⟩ := Option.ite_none_right_eq_some.mp h
        obtain rfl := Option.some.inj ht
        refine hs.change fun other hother => ?_
        rw [hk] at hother
        obtain rfl := Option.some.inj hother
        obtain ⟨hoffset, hcarries⟩ := hs.sound k source hk
        exact ⟨hoffset, hcarries.poll henc hopen hinitial, rfl⟩
  | judge k verdict =>
      simp only [runViewStep] at h
      split at h
      · cases h
      · rename_i source hk
        obtain ⟨hopen, ht⟩ := Option.ite_none_right_eq_some.mp h
        obtain rfl := Option.some.inj ht
        refine hs.change fun other hother => ?_
        rw [hk] at hother
        obtain rfl := Option.some.inj hother
        obtain ⟨hoffset, hcarries⟩ := hs.sound k source hk
        exact ⟨hoffset, hcarries.judge hopen (hwords k verdict rfl), rfl⟩
  | deliver k c =>
      simp only [runViewStep] at h
      split at h
      · cases h
      · rename_i source hk
        obtain ⟨⟨hopen, hmore⟩, ht⟩ := Option.ite_none_right_eq_some.mp h
        obtain rfl := Option.some.inj ht
        exact hs.deliver henc hk hopen hmore
  | fail k =>
      simp only [runViewStep] at h
      split at h
      · cases h
      · rename_i source hk
        obtain ⟨hopen, ht⟩ := Option.ite_none_right_eq_some.mp h
        obtain rfl := Option.some.inj ht
        have hcurrent := hs.opened k source hk hopen
        exact hs.close hcurrent (hs.none_opens hcurrent) s.page.hosts
  | choose i =>
      obtain rfl := Option.some.inj h
      exact hs.show hsettled i
  | answer n answer =>
      simp only [runViewStep] at h
      split at h
      · cases h
      · rename_i waiting hn
        obtain ⟨-, ht⟩ := Option.ite_none_right_eq_some.mp h
        obtain rfl := Option.some.inj ht
        exact hs.answer hn answer
  | list n arrived =>
      simp only [runViewStep] at h
      split at h
      · rename_i i hn
        split at h
        · obtain rfl := Option.some.inj h
          exact hs.opens hn
        · obtain rfl := Option.some.inj h
          exact hs.erase n s.page.record s.page.hosts
      · cases h
  | refuse message =>
      obtain rfl := Option.some.inj h
      exact hs.refuse message

/-- **Where a run is chosen only when no call of `show` waits, the pane shows the run.**  It has
the lines of the first events of the chosen run, each once and in order, whatever was written,
sent, cut off, refused or refreshed in between; and a connection that is open is of that run, the
only one, and shown as far as it has arrived. -/
theorem pane_follows_run (henc : enc.Faithful) {steps : List (RunViewStep E)}
    (hwords : ∀ k verdict, .judge k verdict ∈ steps → enc.Says verdict) {s : RunView E}
    (hrun : execute (runViewStep enc view) {} steps = some s)
    (hsettled : Along (runViewStep enc view) Settled {} steps) {i : RunId}
    (hi : s.page.current = some i) :
    eventLines s.page.pane = ((s.written i).take s.page.seen).map (fun e => line (view e)) ∧
      s.page.seen ≤ (s.written i).length ∧
      ∀ (k : Nat) (source : Source E), s.page.sources[k]? = some source → source.closed = false →
        s.page.source = some k ∧ source.run = i ∧
          (source.connection.received = bodyText enc source.connection.sent →
            s.page.seen = source.connection.stream.index) := by
  have halong : Along (runViewStep enc view) (fun s a => Settled s a ∧
      ∀ k verdict, a = RunViewStep.judge k verdict → enc.Says verdict) {} steps :=
    hsettled.and (along_of_forall fun a ha k verdict heq => hwords k verdict (heq ▸ ha))
  have hs : s.Invariant enc view :=
    invariant_along (fun _ _ _ hI hok h => runViewStep_invariant henc hI hok.1 hok.2 h)
      start_runViewInvariant halong hrun
  obtain ⟨hpane, hseen⟩ := hs.shows i hi
  refine ⟨hpane, hseen, fun k source hk hopen => ?_⟩
  have hcurrent := hs.opened k source hk hopen
  have hwatched := hs.watched k source hcurrent hk
  obtain ⟨hoffset, hcarries⟩ := hs.sound k source hk
  refine ⟨hcurrent, Option.some.inj (hwatched.current.symm.trans hi), fun hall => ?_⟩
  rw [hwatched.seen, hcarries.countP_heard henc, hcarries.payloads_eq henc hall, hoffset,
    List.drop_zero, List.length_take_of_le hcarries.index_le]

end Invariant

/-! ## Two runs -/

instance (s : RunView E) (a : RunViewStep E) : Decidable (Settled s a) := by
  cases a with
  | choose i => exact List.decidableBAll _ _
  | _ => exact isTrue trivial

/-- The two events, as summaries. -/
def sampleView : Sample → Summary
  | .task => .task (some "Apply the network") none
  | .stats => .stats []

/-- A run that is going on. -/
def goingRecord (i : RunId) : RunRecord :=
  { id := i, playbook := "seapath.yaml", playbookId := "seapath", launchedBy := "admin" }

/-- The event of a run is written, sent on a connection, and arrives. -/
def eventArrives (i : RunId) (k : Nat) (e : Sample) : List (RunViewStep Sample) :=
  [.append i e, .poll k (eventsText sampleJson [e])] ++
    (bodyText sampleEncoding [.event 0 e]).map (.deliver k)

/-- A run is chosen, and then another one. -/
def inTurnSteps : List (RunViewStep Sample) :=
  [.choose "one", .answer 0 (some (goingRecord "one")), .list 0 true] ++
    eventArrives "one" 0 .task ++
    [.choose "two", .answer 0 (some (goingRecord "two")), .list 0 true] ++
    eventArrives "two" 1 .stats

theorem pane_follows_run_inTurn :
    ∃ s : RunView Sample, execute (runViewStep sampleEncoding sampleView) {} inTurnSteps = some s ∧
      s.page.seen = 1 ∧
      (eventLines s.page.pane =
          ((s.written "two").take s.page.seen).map (fun e => line (sampleView e)) ∧
        s.page.seen ≤ (s.written "two").length ∧
        ∀ (k : Nat) (source : Source Sample), s.page.sources[k]? = some source →
          source.closed = false → s.page.source = some k ∧ source.run = "two" ∧
            (source.connection.received = bodyText sampleEncoding source.connection.sent →
              s.page.seen = source.connection.stream.index)) := by
  have hruns : (execute (runViewStep sampleEncoding sampleView) {} inTurnSteps).any (fun s =>
      s.page.current = some "two" ∧ s.page.seen = 1) = true := by
    decide +kernel
  rw [Option.any_eq_true] at hruns
  obtain ⟨s, hs, hseen⟩ := hruns
  obtain ⟨hcurrent, hone⟩ := of_decide_eq_true hseen
  refine ⟨s, hs, hone, pane_follows_run sampleEncoding_faithful (fun k verdict h => ?_) hs
    (by decide +kernel) hcurrent⟩
  simp [inTurnSteps, eventArrives] at h

/-- The other run is chosen before the first one has its record: both connections are opened,
and the pane has the events of both. -/
def atOnceSteps : List (RunViewStep Sample) :=
  [.choose "one", .choose "two", .answer 0 (some (goingRecord "one")), .list 0 true,
    .answer 0 (some (goingRecord "two")), .list 0 true] ++
    eventArrives "one" 0 .task ++ eventArrives "two" 1 .stats

theorem two_clicks_mix :
    ∃ s : RunView Sample, execute (runViewStep sampleEncoding sampleView) {} atOnceSteps = some s ∧
      s.page.current = some "two" ∧ s.written "two" = [.stats] ∧
      eventLines s.page.pane = [line (sampleView .task), line (sampleView .stats)] := by
  have hruns : (execute (runViewStep sampleEncoding sampleView) {} atOnceSteps).any (fun s =>
      s.page.current = some "two" ∧ s.written "two" = [.stats] ∧
        eventLines s.page.pane = [line (sampleView .task), line (sampleView .stats)]) = true := by
    decide +kernel
  rw [Option.any_eq_true] at hruns
  obtain ⟨s, hs, hmixed⟩ := hruns
  exact ⟨s, hs, of_decide_eq_true hmixed⟩

end SeapathWebui.Ui
