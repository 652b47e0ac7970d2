import Devit.GhostEditing

/-! What becomes of the stream of one session, whatever the other sessions and the user do in
between: the window is told all of it, in order and once, and what is accepted is what it was
told so far. -/
namespace Devit
open Text

namespace GhostDelivery
open ChatStreams (StreamChunk)
open GhostEditing Runs

/-! ## One session -/

def owner : Event → Text
  | .start id _ | .opened id _ | .pump id | .drain id | .emit id | .accept id | .reject id
  | .look id => id

/-- What concerns one session. -/
structure View where
  session : Option GhostSession
  opening : Option Position
  tasks : Option GhostTasks
  updates : List GhostUpdate

def view (id : Text) (s : AppState) : View where
  session := s.sessions.lookup id
  opening := s.opening.lookup id
  tasks := s.tasks.lookup id
  updates := s.window.filter fun update => update.sessionId = id

/-- What an event does to the session it is for. -/
def single (id : Text) (v : View) : Event → Answer × View
  | .start _ request =>
    (.asked (systemPrompt request) request.prompt,
      { v with
        session := some (.new id request.filePath request.position)
        opening := some request.position })
  | .opened _ stream =>
    match v.opening, stream with
    | none, _ => (.nothing, v)
    | some _, .error e => (.started (.error e), { v with opening := none })
    | some position, .ok chunks =>
      (.started (.ok id), { v with opening := none, tasks := some (.new chunks position) })
  | .pump _ => (.nothing, { v with tasks := v.tasks.map GhostTasks.pump })
  | .drain _ =>
    (.nothing,
      { v with
        tasks := v.tasks.map fun t => t.drain.1
        session := v.session.map fun session =>
          match v.tasks with
          | some t => if t.drain.2 then t.drain.1.show session else session
          | none => session })
  | .emit _ =>
    (.nothing,
      { v with
        tasks := v.tasks.map fun t => { t with leaving := none }
        updates := v.updates ++ (v.tasks.bind (·.update id)).toList })
  | .accept _ =>
    (.accepted ((v.session.map (·.pendingText)).elim (.error "Session not found".toList) .ok),
      { v with session := none })
  | .reject _ => (.nothing, { v with session := none })
  | .look _ => (.shown (v.session.map response), v)

theorem single_own (s : AppState) (event : Event) :
    single (owner event) (view (owner event) s) event =
      ((step s event).1, view (owner event) (step s event).2) := by
  cases event with
  | start id request => simp [owner, single, step, startGhostEdit, view]
  | opened id stream =>
    simp only [owner, single, step, finishStart, view]
    cases opening : s.opening.lookup id with
    | none => simp [opening]
    | some position => cases stream <;> simp
  | pump id =>
    simp only [owner, single, step, pumpTask, view]
    cases tasks : s.tasks.lookup id with
    | none => simp [tasks]
    | some t => simp
  | drain id =>
    simp only [owner, single, step, drainTask, view]
    cases tasks : s.tasks.lookup id with
    | none => simp [tasks]
    | some t =>
      cases session : s.sessions.lookup id with
      | none => simp [session]
      | some session =>
        by_cases writes : t.drain.2 = true
        · simp [writes]
        · simp [writes, session]
  | emit id =>
    simp only [owner, single, step, emitUpdate, view]
    cases tasks : s.tasks.lookup id with
    | none => simp [tasks]
    | some t =>
      cases leaving : t.leaving <;> simp [GhostTasks.update, leaving]
  | accept id =>
    simp only [owner, single, step, acceptGhost, view]
    cases session : s.sessions.lookup id with
    | none => simp [session]
    | some session => simp
  | reject id => simp [owner, single, step, rejectGhost, view]
  | look id => rfl

theorem view_other {id : Text} {s : AppState} {event : Event} (other : owner event ≠ id) :
    view id (step s event).2 = view id s := by
  have away : id ≠ owner event := fun same => other same.symm
  cases event with
  | start own request =>
    simp only [owner] at away
    simp [step, startGhostEdit, view, AList.lookup_insert_ne away]
  | opened own stream =>
    simp only [owner] at away
    simp only [step, finishStart]
    cases s.opening.lookup own with
    | none => rfl
    | some position =>
      cases stream with
      | error e => simp [view, AList.lookup_erase_ne away]
      | ok chunks => simp [view, AList.lookup_erase_ne away, AList.lookup_insert_ne away]
  | pump own =>
    simp only [owner] at away
    simp only [step, pumpTask]
    cases s.tasks.lookup own with
    | none => rfl
    | some t => simp [view, AList.lookup_insert_ne away]
  | drain own =>
    simp only [owner] at away
    simp only [step, drainTask]
    cases s.tasks.lookup own with
    | none => rfl
    | some t =>
      cases s.sessions.lookup own with
      | none => simp [view, AList.lookup_insert_ne away]
      | some session =>
        by_cases writes : t.drain.2 = true
        · simp [writes, view, AList.lookup_insert_ne away]
        · simp [writes, view, AList.lookup_insert_ne away]
  | emit own =>
    simp only [owner] at away
    simp only [step, emitUpdate]
    cases s.tasks.lookup own with
    | none => rfl
    | some t =>
      have foreign : own ≠ id := other
      cases leaving : t.leaving with
      | none => simp [view, AList.lookup_insert_ne away, GhostTasks.update, leaving]
      | some said => simp [view, AList.lookup_insert_ne away, GhostTasks.update, leaving, foreign]
  | accept own =>
    simp only [owner] at away
    simp only [step, acceptGhost]
    cases s.sessions.lookup own with
    | none => rfl
    | some session => simp [view, AList.lookup_erase_ne away]
  | reject own =>
    simp only [owner] at away
    simp [step, rejectGhost, view, AList.lookup_erase_ne away]
  | look own => rfl

/-- The sessions do not touch one another. -/
def sessions : Parties step Text View where
  owner := owner
  view := view
  single := single
  own := single_own
  other := fun _ _ _ other => view_other other

/-! ## What is still to come -/

/-- What the first task makes of a stream. -/
def forward : List StreamChunk → List GhostStreamChunk
  | [] => []
  | .delta s :: rest => .delta s :: forward rest
  | .thinking _ :: rest => forward rest
  | .done _ :: _ => [.done]
  | .error e :: _ => [.error e]

/-- What the second task makes of that, with the cursor and the text it has. -/
def updatesFrom (sid : Text) (pos : Position) (pending : Text) :
    List GhostStreamChunk → List GhostUpdate
  | .delta text :: rest =>
    ⟨sid, advance pos text, text, pending ++ text, false⟩ ::
      updatesFrom sid (advance pos text) (pending ++ text) rest
  | .error e :: _ => [⟨sid, pos, "Error: ".toList ++ e, pending, true⟩]
  | .done :: _ | [] => [⟨sid, pos, [], pending, true⟩]

/-- What waits for the second task, and what the first will put behind it. -/
def ahead (t : GhostTasks) : List GhostStreamChunk :=
  t.channel ++ if t.pumping then forward t.incoming else []

/-- What the window has still to be told. -/
def toCome (sid : Text) (t : GhostTasks) : List GhostUpdate :=
  (t.update sid).toList ++
    if t.draining then updatesFrom sid t.pos t.pending (ahead t) else []

variable {sid : Text} {t : GhostTasks}

theorem send_cases (chunk : GhostStreamChunk) (rest : List StreamChunk) (goesOn : Bool) :
    t.send chunk rest goesOn = t ∨
      t.send chunk rest goesOn =
        { t with incoming := rest, channel := t.channel ++ [chunk], pumping := goesOn } := by
  rw [GhostTasks.send]
  split
  · exact .inr rfl
  · exact .inl rfl

theorem ahead_send {chunk : GhostStreamChunk} {rest : List StreamChunk} {goesOn : Bool}
    (pumping : t.pumping = true)
    (next : forward t.incoming = chunk :: if goesOn then forward rest else []) :
    ahead (t.send chunk rest goesOn) = ahead t := by
  rcases send_cases chunk rest goesOn with same | sent
  · rw [same]
  · rw [sent, ahead, ahead, if_pos pumping, next, List.append_assoc]
    rfl

/-- A turn of the first task changes nothing of what is ahead. -/
theorem ahead_pump : ahead t.pump = ahead t := by
  rw [GhostTasks.pump]
  by_cases pumping : t.pumping = true
  · rw [if_pos pumping]
    cases incoming : t.incoming with
    | nil => simp [ahead, pumping, incoming, forward]
    | cons chunk rest =>
      cases chunk with
      | delta s => exact ahead_send pumping (by rw [incoming]; rfl)
      | thinking s => simp [ahead, pumping, incoming, forward]
      | done r => exact ahead_send pumping (by rw [incoming]; rfl)
      | error e => exact ahead_send pumping (by rw [incoming]; rfl)
  · rw [if_neg pumping]

/-- A turn of the first task touches nothing but the stream and the channel. -/
theorem pump_frame : t.pump.pos = t.pos ∧ t.pump.pending = t.pending ∧
    t.pump.draining = t.draining ∧ t.pump.leaving = t.leaving := by
  rw [GhostTasks.pump]
  split
  · split
    · exact ⟨rfl, rfl, rfl, rfl⟩
    · rcases send_cases (t := t) _ _ true with same | sent
      · rw [same]; exact ⟨rfl, rfl, rfl, rfl⟩
      · rw [sent]; exact ⟨rfl, rfl, rfl, rfl⟩
    · exact ⟨rfl, rfl, rfl, rfl⟩
    · rcases send_cases (t := t) .done _ false with same | sent
      · rw [same]; exact ⟨rfl, rfl, rfl, rfl⟩
      · rw [sent]; exact ⟨rfl, rfl, rfl, rfl⟩
    · rcases send_cases (t := t) _ _ false with same | sent
      · rw [same]; exact ⟨rfl, rfl, rfl, rfl⟩
      · rw [sent]; exact ⟨rfl, rfl, rfl, rfl⟩
  · exact ⟨rfl, rfl, rfl, rfl⟩

theorem toCome_pump : toCome sid t.pump = toCome sid t := by
  obtain ⟨pos, pending, draining, leaving⟩ := @pump_frame t
  rw [toCome, toCome, ahead_pump, GhostTasks.update, GhostTasks.update, pos, pending, draining,
    leaving]

/-- What a turn of the second task can do: nothing, read a delta, or finish. -/
theorem drain_cases :
    t.drain = (t, false) ∨
      t.draining = true ∧ t.leaving = none ∧
        ((∃ text rest, t.channel = .delta text :: rest ∧
            t.drain = ({ t with channel := rest, pos := advance t.pos text,
                                pending := t.pending ++ text, leaving := some (text, false) },
              true)) ∨
          ∃ rest last, t.drain = ({ t with channel := rest, draining := false,
                                           leaving := some (last, true) }, false) ∧
            updatesFrom sid t.pos t.pending (ahead t) = [⟨sid, t.pos, last, t.pending, true⟩]) := by
  rw [GhostTasks.drain]
  by_cases turn : t.draining = true ∧ t.leaving = none
  · rw [if_pos turn]
    cases channel : t.channel with
    | nil =>
      by_cases pumping : t.pumping = true
      · exact .inl (if_pos pumping)
      · refine .inr ⟨turn.1, turn.2, .inr ⟨[], [], ?_, ?_⟩⟩
        · exact (if_neg pumping).trans (by rw [← channel])
        · rw [ahead, channel, if_neg pumping]
          rfl
    | cons chunk rest =>
      refine .inr ⟨turn.1, turn.2, ?_⟩
      cases chunk with
      | delta text => exact .inl ⟨text, rest, rfl, rfl⟩
      | done => exact .inr ⟨rest, [], rfl, by rw [ahead, channel]; rfl⟩
      | error e => exact .inr ⟨rest, "Error: ".toList ++ e, rfl, by rw [ahead, channel]; rfl⟩
  · exact .inl (if_neg turn)

theorem toCome_drain : toCome sid t.drain.1 = toCome sid t := by
  rcases @drain_cases sid t with idle | ⟨draining, leaving, read | finish⟩
  · rw [idle]
  · obtain ⟨text, rest, channel, read⟩ := read
    rw [read]
    simp [toCome, GhostTasks.update, ahead, draining, leaving, channel, updatesFrom]
  · obtain ⟨rest, last, finish, left⟩ := finish
    rw [finish]
    simp [toCome, GhostTasks.update, draining, leaving, left]

/-! ## Runs -/

def startRequest (id : Text) : Event → Option GhostEditRequest
  | .start own request => if own = id then some request else none
  | _ => none

/-- No id is drawn twice. -/
def Drawn (events : List Event) : Prop :=
  ∀ id, (events.filterMap (startRequest id)).length ≤ 1

/-- The text that updates put in. -/
def deltas (updates : List GhostUpdate) : Text :=
  (updates.filter fun update => !update.done).flatMap (·.delta)

/-- The session as its tasks left it. -/
def shown (id : Text) (request : GhostEditRequest) (tasks : Option GhostTasks) : GhostSession :=
  let session := GhostSession.new id request.filePath request.position
  match tasks with
  | none => session
  | some t => t.show session

/-- How a session stands that was started. -/
structure Standing (id : Text) (request : GhostEditRequest) (events : List Event) (v : View) :
    Prop where
  opening : ∀ position, v.opening = some position → position = request.position ∧ v.tasks = none
  quiet : v.tasks = none → v.updates = []
  stream : ∀ t, v.tasks = some t → ∃ script, Event.opened id (.ok script) ∈ events ∧
    v.updates ++ toCome id t = updatesFrom id request.position [] (forward script)
  place : ∀ t, v.tasks = some t → t.pos = advance request.position t.pending
  text : ∀ t, v.tasks = some t → t.pending = deltas (v.updates ++ (t.update id).toList)
  session : ∀ session, v.session = some session → session = shown id request v.tasks

section
variable {id : Text} {request : GhostEditRequest} {events : List Event} {event : Event} {v : View}

theorem advance_append (pos : Position) (before after : Text) :
    advance pos (before ++ after) = advance (advance pos before) after := List.foldl_append

theorem deltas_append (before after : List GhostUpdate) :
    deltas (before ++ after) = deltas before ++ deltas after := by
  rw [deltas, List.filter_append, List.flatMap_append]
  rfl

/-- More events, and nothing else. -/
theorem Standing.mono (standing : Standing id request events v) :
    Standing id request (events ++ [event]) v where
  opening := standing.opening
  quiet := standing.quiet
  stream t tasks := by
    obtain ⟨script, opened, whole⟩ := standing.stream t tasks
    exact ⟨script, List.mem_append_left _ opened, whole⟩
  place := standing.place
  text := standing.text
  session := standing.session

theorem Standing.open (standing : Standing id request events v) {position : Position}
    {chunks : List StreamChunk} (opening : v.opening = some position) :
    Standing id request (events ++ [.opened id (.ok chunks)])
      { v with opening := none, tasks := some (.new chunks position) } := by
  obtain ⟨rfl, none⟩ := standing.opening position opening
  have silent := standing.quiet none
  have fresh (t : GhostTasks) (own : some (GhostTasks.new chunks request.position) = some t) :
      t = .new chunks request.position := (Option.some.inj own).symm
  refine ⟨by simp, by simp, fun t own => ?_, fun t own => ?_, fun t own => ?_,
    fun session own => ?_⟩
  · refine ⟨chunks, List.mem_append_right _ (List.mem_singleton.mpr rfl), ?_⟩
    rw [fresh t own, silent]
    simp [toCome, GhostTasks.new, GhostTasks.update, ahead]
  · rw [fresh t own]
    rfl
  · rw [fresh t own, silent]
    rfl
  · rw [standing.session session own, none]
    rfl

/-- A turn of a task, with what the window is told in it. -/
theorem Standing.turn (standing : Standing id request events v) {t next : GhostTasks}
    {said : List GhostUpdate} {session : Option GhostSession} (tasks : v.tasks = some t)
    (rest : said ++ toCome id next = toCome id t)
    (place : next.pos = advance request.position next.pending)
    (text : next.pending = deltas (v.updates ++ said ++ (next.update id).toList))
    (kept : ∀ own, session = some own → own = shown id request (some next)) :
    Standing id request (events ++ [event])
      { v with session := session, tasks := some next, updates := v.updates ++ said } := by
  refine ⟨fun position opening => ?_, by simp, fun own same => ?_, fun own same => ?_,
    fun own same => ?_, kept⟩
  · have none := (standing.opening position opening).2
    rw [tasks] at none
    cases none
  · obtain ⟨script, opened, whole⟩ := standing.stream t tasks
    refine ⟨script, List.mem_append_left _ opened, ?_⟩
    rw [← Option.some.inj same, List.append_assoc, rest]
    exact whole
  · rw [← Option.some.inj same]
    exact place
  · rw [← Option.some.inj same]
    exact text

/-- Before there are tasks, their turns do nothing. -/
theorem single_idle {other : Text} (none : v.tasks = none)
    (turn : event = .pump other ∨ event = .drain other ∨ event = .emit other) :
    (single id v event).2 = v := by
  obtain ⟨session, opening, tasks, updates⟩ := v
  obtain rfl : tasks = Option.none := none
  rcases turn with rfl | rfl | rfl <;> simp [single]

/-- A turn of the second task keeps cursor, text and session together. -/
theorem drain_keeps {start : Position} {updates : List GhostUpdate}
    (place : t.pos = advance start t.pending)
    (text : t.pending = deltas (updates ++ (t.update sid).toList)) :
    t.drain.1.pos = advance start t.drain.1.pending ∧
      t.drain.1.pending = deltas (updates ++ (t.drain.1.update sid).toList) ∧
      ∀ session, (if t.drain.2 then t.drain.1.show (t.show session) else t.show session) =
        t.drain.1.show session := by
  rcases @drain_cases sid t with idle | ⟨draining, leaving, read | finish⟩
  · rw [idle]
    exact ⟨place, text, fun session => rfl⟩
  · obtain ⟨piece, rest, -, read⟩ := read
    rw [GhostTasks.update, leaving, Option.map_none, Option.toList_none, List.append_nil] at text
    rw [read]
    refine ⟨?_, ?_, fun session => rfl⟩
    · rw [advance_append, ← place]
    · rw [deltas_append, ← text]
      simp [GhostTasks.update, deltas]
  · obtain ⟨rest, last, finish, -⟩ := finish
    rw [GhostTasks.update, leaving, Option.map_none, Option.toList_none, List.append_nil] at text
    rw [finish]
    refine ⟨place, ?_, fun session => rfl⟩
    rw [deltas_append, ← text]
    simp [GhostTasks.update, deltas]

/-- What a session's own events do to it after its start. -/
theorem Standing.step (standing : Standing id request events v) (own : owner event = id)
    (later : startRequest id event = none) :
    Standing id request (events ++ [event]) (single id v event).2 := by
  cases event with
  | start other request =>
    simp only [owner] at own
    simp [startRequest, own] at later
  | opened other stream =>
    obtain rfl : other = id := own
    cases opening : v.opening with
    | none => simpa [single, opening] using standing.mono
    | some position =>
      cases stream with
      | error e =>
        simp only [single, opening]
        exact { standing.mono with opening := by simp }
      | ok chunks =>
        simp only [single, opening]
        exact standing.open opening
  | pump other =>
    cases tasks : v.tasks with
    | none => rw [single_idle tasks (.inl rfl)]; exact standing.mono
    | some t =>
      obtain ⟨pos, pending, -, leaving⟩ := @pump_frame t
      have update : t.pump.update id = t.update id := by
        rw [GhostTasks.update, GhostTasks.update, pos, pending, leaving]
      have turned := @Standing.turn _ _ _ (.pump other) _ standing t t.pump [] v.session tasks
        toCome_pump (by rw [pos, pending]; exact standing.place t tasks)
        (by rw [pending, List.append_nil, update]; exact standing.text t tasks)
        (fun session there => by
          rw [standing.session session there, tasks, shown, shown]
          simp [GhostTasks.show, pos, pending])
      simpa [single, tasks] using turned
  | drain other =>
    cases tasks : v.tasks with
    | none => rw [single_idle tasks (.inr (.inl rfl))]; exact standing.mono
    | some t =>
      obtain ⟨place, text, show_eq⟩ := drain_keeps (standing.place t tasks) (standing.text t tasks)
      have turned := @Standing.turn _ _ _ (.drain other) _ standing t t.drain.1 []
        (v.session.map fun session => if t.drain.2 then t.drain.1.show session else session) tasks
        toCome_drain place (by rw [List.append_nil]; exact text) (by
          intro session there
          obtain ⟨before, own, rfl⟩ := Option.map_eq_some_iff.mp there
          rw [standing.session before own, tasks]
          exact show_eq _)
      simpa [single, tasks] using turned
  | emit other =>
    cases tasks : v.tasks with
    | none => rw [single_idle tasks (.inr (.inr rfl))]; exact standing.mono
    | some t =>
      have said : v.updates ++ (t.update id).toList ++
          (GhostTasks.update id { t with leaving := none }).toList =
            v.updates ++ (t.update id).toList := List.append_nil _
      have turned := @Standing.turn _ _ _ (.emit other) _ standing t { t with leaving := none }
        (t.update id).toList v.session tasks rfl (standing.place t tasks)
        (by rw [said]; exact standing.text t tasks)
        (fun session there => by rw [standing.session session there, tasks]; rfl)
      simpa [single, tasks] using turned
  | accept other => exact { standing.mono with session := by simp [single] }
  | reject other => exact { standing.mono with session := by simp [single] }
  | look other => exact standing.mono

theorem eq_start (start : startRequest id event = some request) : event = .start id request := by
  cases event with
  | start other asked =>
    by_cases same : other = id
    · rw [startRequest, if_pos same] at start
      rw [same, Option.some.inj start]
    · rw [startRequest, if_neg same] at start
      cases start
  | opened | pump | drain | emit | accept | reject | look => cases start

/-- Before the start nothing happens. -/
theorem single_blank (own : owner event = id) (later : startRequest id event = none) :
    (single id (view id initial) event).2 = view id initial := by
  cases event with
  | start other request =>
    simp only [owner] at own
    simp [startRequest, own] at later
  | opened | pump | drain | emit | accept | reject | look => rfl

theorem Standing.start (own : startRequest id event = some request) :
    Standing id request (events ++ [event]) (single id (view id initial) event).2 := by
  rw [eq_start own]
  refine ⟨?_, fun _ => rfl, ?_, ?_, ?_, ?_⟩
  · intro position opening
    exact ⟨(Option.some.inj opening).symm, rfl⟩
  · intro t tasks
    cases tasks
  · intro t tasks
    cases tasks
  · intro t tasks
    cases tasks
  · intro session there
    exact (Option.some.inj there).symm

/-- A session that was started stands well after every run of its own events. -/
theorem standing_own (owned : ∀ event ∈ events, owner event = id)
    (once : (events.filterMap (startRequest id)).length ≤ 1) :
    (events.filterMap (startRequest id) = [] ∧
        final (single id) (view id initial) events = view id initial) ∨
      ∃ request, events.filterMap (startRequest id) = [request] ∧
        Standing id request events (final (single id) (view id initial) events) := by
  induction events using List.reverseRecOn with
  | nil => exact .inl ⟨rfl, rfl⟩
  | append_singleton events event ih =>
    have own := owned event (List.mem_append_right _ (List.mem_singleton.mpr rfl))
    rw [List.filterMap_append, List.length_append] at once
    obtain ⟨silent, blank⟩ | ⟨request, started, standing⟩ :=
      ih (fun other member => owned other (List.mem_append_left _ member)) (by omega)
    · rw [final_concat, blank, List.filterMap_append, silent, List.nil_append]
      cases start : startRequest id event with
      | none =>
        rw [List.filterMap_cons_none start]
        exact .inl ⟨rfl, single_blank own start⟩
      | some request =>
        rw [List.filterMap_cons_some start]
        exact .inr ⟨request, rfl, .start start⟩
    · rw [started] at once
      have later : startRequest id event = none := by
        cases start : startRequest id event with
        | none => rfl
        | some second =>
          rw [List.filterMap_cons_some start] at once
          simp at once
      refine .inr ⟨request, ?_, ?_⟩
      · rw [List.filterMap_append, started, List.filterMap_cons_none later]
        rfl
      · rw [final_concat]
        exact standing.step own later

theorem mem_of_startRequest (member : request ∈ events.filterMap (startRequest id)) :
    Event.start id request ∈ events := by
  obtain ⟨event, there, own⟩ := List.mem_filterMap.mp member
  rwa [← eq_start own]

theorem filterMap_ofParty (events : List Event) :
    (sessions.ofParty id events).filterMap (startRequest id) =
      events.filterMap (startRequest id) := by
  rw [Parties.ofParty, List.filterMap_filter]
  refine List.filterMap_congr fun event _ => ?_
  by_cases own : sessions.owner event = id
  · simp [own]
  · cases event with
    | start other request =>
      have away : other ≠ id := own
      simp [startRequest, away]
    | opened | pump | drain | emit | accept | reject | look => simp [startRequest]

/-- In every interleaving a session is blank or stands well. -/
theorem standing_run (drawn : Drawn events) :
    view id (final step initial events) = view id initial ∨
      ∃ request, Event.start id request ∈ events ∧
        Standing id request events (view id (final step initial events)) := by
  have seen : view id (final step initial events) =
      final (single id) (view id initial) (sessions.ofParty id events) :=
    sessions.view_final id initial events
  have once : ((sessions.ofParty id events).filterMap (startRequest id)).length ≤ 1 := by
    rw [filterMap_ofParty]
    exact drawn id
  have owned : ∀ event ∈ sessions.ofParty id events, owner event = id := by
    intro event member
    exact of_decide_eq_true (List.mem_filter.mp member).2
  rw [seen]
  obtain ⟨-, blank⟩ | ⟨request, started, standing⟩ := standing_own owned once
  · exact .inl blank
  · refine .inr ⟨request, ?_, ?_⟩
    · apply mem_of_startRequest
      rw [← filterMap_ofParty, started]
      exact List.mem_singleton.mpr rfl
    · exact
        { standing with
          stream := fun t tasks => by
            obtain ⟨script, opened, whole⟩ := standing.stream t tasks
            exact ⟨script, (List.mem_filter.mp opened).1, whole⟩ }

end

/-! ## What the window is told, and what the user accepts -/

/-- What the window was told of a session. -/
def toldOf (id : Text) (s : AppState) : List GhostUpdate :=
  s.window.filter fun update => update.sessionId = id

/-- What its task is about to tell. -/
def leavingOf (id : Text) (s : AppState) : List GhostUpdate :=
  ((s.tasks.lookup id).bind (·.update id)).toList

/-- All that the window is to be told of a stream. -/
def wholeStory (id : Text) (request : GhostEditRequest) (script : List StreamChunk) :
    List GhostUpdate :=
  updatesFrom id request.position [] (forward script)

variable {id : Text} {events : List Event}

theorem updatesFrom_ne_nil {pos : Position} {pending : Text} {chunks : List GhostStreamChunk} :
    updatesFrom id pos pending chunks ≠ [] := by
  cases chunks with
  | nil => simp [updatesFrom]
  | cons chunk rest => cases chunk <;> simp [updatesFrom]

theorem toCome_eq_nil : toCome id t = [] ↔ t.draining = false ∧ t.leaving = none := by
  rw [toCome, List.append_eq_nil_iff, Option.toList_eq_nil_iff, GhostTasks.update,
    Option.map_eq_none_iff]
  by_cases draining : t.draining = true
  · simp [draining, updatesFrom_ne_nil]
  · simp [draining]

/-- **Nothing is lost or told twice.** Whatever the order of all turns and commands, the window
was told of a session a first part of what its stream makes, and all of it exactly if its
second task is through. -/
theorem told_in_order (drawn : Drawn events) {t : GhostTasks}
    (spawned : (final step initial events).tasks.lookup id = some t) :
    ∃ request script, Event.start id request ∈ events ∧ Event.opened id (.ok script) ∈ events ∧
      toldOf id (final step initial events) <+: wholeStory id request script ∧
      (toldOf id (final step initial events) = wholeStory id request script ↔
        t.draining = false ∧ t.leaving = none) := by
  obtain blank | ⟨request, started, standing⟩ := @standing_run id events drawn
  · have none : (final step initial events).tasks.lookup id = none := congrArg View.tasks blank
    rw [spawned] at none
    cases none
  · obtain ⟨script, opened, whole⟩ := standing.stream t spawned
    refine ⟨request, script, started, opened, ⟨_, whole⟩, ?_⟩
    rw [wholeStory, ← whole, ← @toCome_eq_nil t id]
    exact List.self_eq_append_right

/-- Two sessions at once: the second is through with its only delta, the first in the middle. -/
def both : List Event :=
  [.start "a".toList ⟨"a.rs".toList, ⟨1, 0⟩, "go on".toList, none⟩,
    .start "b".toList ⟨"b.rs".toList, ⟨7, 4⟩, "go on".toList, none⟩,
    .opened "a".toList (.ok [.delta "x\n".toList, .thinking "hm".toList, .delta "y".toList]),
    .opened "b".toList (.ok [.delta "z".toList]),
    .pump "a".toList, .pump "b".toList, .drain "a".toList, .drain "b".toList, .emit "b".toList,
    .pump "b".toList, .drain "b".toList, .emit "b".toList, .emit "a".toList, .pump "a".toList,
    .pump "a".toList, .drain "a".toList]

theorem both_drawn : Drawn both := by
  intro id
  by_cases first : "a".toList = id
  · subst first
    decide
  · by_cases second : "b".toList = id
    · subst second
      decide
    · simp only [both, List.filterMap_cons, List.filterMap_nil, startRequest, if_neg first,
        if_neg second, List.length_nil, Nat.zero_le]

theorem both_told :
    ∃ request script, Event.start "b".toList request ∈ both ∧
      Event.opened "b".toList (.ok script) ∈ both ∧
      toldOf "b".toList (final step initial both) <+: wholeStory "b".toList request script ∧
      (toldOf "b".toList (final step initial both) = wholeStory "b".toList request script ↔
        false = false ∧ (none : Option (Text × Bool)) = none) :=
  told_in_order both_drawn
    (t := ⟨[], false, [], ⟨7, 5⟩, "z".toList, false, none⟩) rfl

/-- The text of a whole stream. -/
def wholeText (script : List StreamChunk) : Text :=
  (forward script).flatMap fun chunk =>
    match chunk with
    | .delta text => text
    | _ => []

theorem deltas_updatesFrom (pos : Position) (pending : Text) (script : List StreamChunk) :
    deltas (updatesFrom id pos pending (forward script)) = wholeText script := by
  induction script generalizing pos pending with
  | nil => rfl
  | cons chunk rest ih =>
    cases chunk with
    | delta text =>
      have later := ih (advance pos text) (pending ++ text)
      unfold deltas wholeText at *
      simp [forward, updatesFrom, later]
    | thinking text => exact ih pos pending
    | done r => rfl
    | error e => rfl

/-- **What is accepted** at any moment is the text of the updates so far, a first part of the
text of the stream, and the state that is shown has the cursor behind that text. -/
theorem accepted_so_far (drawn : Drawn events)
    (there : ((final step initial events).sessions.lookup id).isSome = true) :
    let s := final step initial events
    let text := deltas (toldOf id s ++ leavingOf id s)
    (step s (.accept id)).1 = .accepted (.ok text) ∧
      ∃ request, Event.start id request ∈ events ∧
        getGhostState id s = some
          ⟨id, "Pending".toList, text, request.position, advance request.position text⟩ ∧
        ∀ t, s.tasks.lookup id = some t →
          ∃ script, Event.opened id (.ok script) ∈ events ∧ text <+: wholeText script := by
  obtain ⟨session, found⟩ := Option.isSome_iff_exists.mp there
  obtain blank | ⟨request, started, standing⟩ := @standing_run id events drawn
  · have none : (final step initial events).sessions.lookup id = none := congrArg View.session blank
    rw [found] at none
    cases none
  dsimp only
  generalize final step initial events = s at found standing
  have own : session = shown id request (s.tasks.lookup id) := standing.session session found
  have text : session.pendingText = deltas (toldOf id s ++ leavingOf id s) := by
    cases tasks : s.tasks.lookup id with
    | none =>
      have quiet : toldOf id s = [] := standing.quiet tasks
      rw [own, tasks, quiet, leavingOf, tasks]
      rfl
    | some t =>
      rw [own, tasks, leavingOf, tasks]
      exact standing.text t tasks
  have place : (⟨session.currentLine, session.currentColumn⟩ : Position) =
      advance request.position session.pendingText := by
    cases tasks : s.tasks.lookup id with
    | none => rw [own, tasks]; rfl
    | some t => rw [own, tasks]; exact standing.place t tasks
  have kept : session.id = id ∧ session.state = .pending ∧
      (⟨session.startLine, session.startColumn⟩ : Position) = request.position := by
    rw [own]
    cases s.tasks.lookup id <;> exact ⟨rfl, rfl, rfl⟩
  refine ⟨?_, request, started, ?_, fun t tasks => ?_⟩
  · rw [step, acceptGhost, found]
    exact congrArg (Answer.accepted ∘ Except.ok) text
  · rw [getGhostState, found, Option.map_some, response, place, kept.1, kept.2.1, kept.2.2, text]
    rfl
  · obtain ⟨script, opened, whole⟩ := standing.stream t tasks
    refine ⟨script, opened, ?_⟩
    have story := congrArg deltas whole
    rw [deltas_updatesFrom, toCome, ← List.append_assoc, deltas_append] at story
    rw [← story, leavingOf, tasks]
    exact List.prefix_append _ _

/-- The second delta is in, though the window was not told of it. -/
theorem both_accepted :
    (step (final step initial both) (.accept "a".toList)).1 =
        .accepted (.ok (deltas (toldOf "a".toList (final step initial both) ++
          leavingOf "a".toList (final step initial both)))) ∧
      ∃ request, Event.start "a".toList request ∈ both ∧
        getGhostState "a".toList (final step initial both) = some
          ⟨"a".toList, "Pending".toList,
            deltas (toldOf "a".toList (final step initial both) ++
              leavingOf "a".toList (final step initial both)),
            request.position, advance request.position
              (deltas (toldOf "a".toList (final step initial both) ++
                leavingOf "a".toList (final step initial both)))⟩ ∧
        ∀ t, (final step initial both).tasks.lookup "a".toList = some t →
          ∃ script, Event.opened "a".toList (.ok script) ∈ both ∧
            deltas (toldOf "a".toList (final step initial both) ++
              leavingOf "a".toList (final step initial both)) <+: wholeText script :=
  accepted_so_far both_drawn (by decide +kernel)

example : deltas (toldOf "a".toList (final step initial both) ++
    leavingOf "a".toList (final step initial both)) = "x\ny".toList := by decide +kernel

/-! ## No session gets stuck -/

/-- How many turns the tasks can still take. -/
def load (t : GhostTasks) : Nat :=
  2 * t.incoming.length + t.channel.length + t.pumping.toNat + t.draining.toNat

theorem load_sent (chunk : GhostStreamChunk) {first : StreamChunk} {rest : List StreamChunk}
    {goesOn : Bool} (pumping : t.pumping = true) (incoming : t.incoming = first :: rest) :
    load { t with incoming := rest, channel := t.channel ++ [chunk], pumping := goesOn } <
      load t := by
  have one : goesOn.toNat ≤ 1 := Bool.toNat_le goesOn
  rw [load, load, incoming, pumping]
  simp only [List.length_append, List.length_cons, List.length_nil, Bool.toNat_true]
  omega

theorem load_send (chunk : GhostStreamChunk) {first : StreamChunk} {rest : List StreamChunk}
    {goesOn : Bool} (pumping : t.pumping = true) (incoming : t.incoming = first :: rest) :
    load (t.send chunk rest goesOn) ≤ load t ∧
      (t.channel = [] → load (t.send chunk rest goesOn) < load t) := by
  have less := @load_sent t chunk first rest goesOn pumping incoming
  constructor
  · rcases send_cases chunk rest goesOn with same | sent
    · rw [same]
    · rw [sent]
      exact less.le
  · intro empty
    have room : t.channel.length < channelCapacity := by
      rw [empty]
      decide
    rw [GhostTasks.send, if_pos room]
    exact less

/-- A turn of the first task is not one more to take, and with the channel empty one less. -/
theorem load_pump : load t.pump ≤ load t ∧
    (t.pumping = true → t.channel = [] → load t.pump < load t) := by
  rw [GhostTasks.pump]
  by_cases pumping : t.pumping = true
  · rw [if_pos pumping]
    cases incoming : t.incoming with
    | nil =>
      have less : load { t with incoming := [], pumping := false } < load t := by
        simp only [load, incoming, pumping, Bool.toNat_true, Bool.toNat_false]
        omega
      exact ⟨less.le, fun _ _ => less⟩
    | cons chunk rest =>
      cases chunk with
      | delta s => exact (load_send _ pumping incoming).imp id fun less _ => less
      | thinking s =>
        have less : load { t with incoming := rest } < load t := by
          simp only [load, incoming, List.length_cons]
          omega
        exact ⟨less.le, fun _ _ => less⟩
      | done r => exact (load_send _ pumping incoming).imp id fun less _ => less
      | error e => exact (load_send _ pumping incoming).imp id fun less _ => less
  · rw [if_neg pumping]
    exact ⟨le_rfl, fun on => absurd on pumping⟩

theorem load_last (said : Text × Bool) {chunk : GhostStreamChunk} {rest : List GhostStreamChunk}
    (draining : t.draining = true) (channel : t.channel = chunk :: rest) :
    load { t with channel := rest, draining := false, leaving := some said } < load t := by
  simp only [load, channel, draining, List.length_cons, Bool.toNat_true, Bool.toNat_false]
  omega

/-- The second task does something unless it has to wait for the first. -/
theorem load_drain (draining : t.draining = true) (free : t.leaving = none) :
    load t.drain.1 < load t ∨ t.drain.1 = t ∧ t.pumping = true ∧ t.channel = [] := by
  rw [GhostTasks.drain, if_pos ⟨draining, free⟩]
  cases channel : t.channel with
  | nil =>
    by_cases pumping : t.pumping = true
    · exact .inr ⟨by simp [pumping], pumping, rfl⟩
    · exact .inl (by simp [pumping, load, draining, channel])
  | cons chunk rest =>
    cases chunk with
    | delta text => exact .inl (by simp [load, channel])
    | done => exact .inl (load_last ([], true) draining channel)
    | error e => exact .inl (load_last ("Error: ".toList ++ e, true) draining channel)

/-- The window is told, the channel read, the stream passed on. -/
def round (t : GhostTasks) : GhostTasks := ({ t with leaving := none } : GhostTasks).drain.1.pump

theorem load_round (draining : t.draining = true) : load (round t) < load t := by
  have told : load { t with leaving := none } = load t := rfl
  rcases @load_drain { t with leaving := none } draining rfl with less | ⟨idle, pumping, empty⟩
  · exact Nat.lt_of_le_of_lt load_pump.1 (told ▸ less)
  · rw [round, idle]
    exact load_pump.2 pumping empty

/-- A turn of one of the tasks of a session. -/
def TurnOf (id : Text) (event : Event) : Prop :=
  event = .pump id ∨ event = .drain id ∨ event = .emit id

theorem tasks_round {s : AppState} (spawned : s.tasks.lookup id = some t) :
    (final step s [.emit id, .drain id, .pump id]).tasks.lookup id = some (round t) := by
  have seen := congrArg View.tasks (sessions.view_final id s [.emit id, .drain id, .pump id])
  have own : sessions.ofParty id [.emit id, .drain id, .pump id] =
      [.emit id, .drain id, .pump id] := by
    simp [Parties.ofParty, sessions, owner]
  rw [own] at seen
  refine seen.trans ?_
  simp [final, sessions, single, view, spawned, round]

/-- From any state the tasks of a session can finish, whatever the others do not do. -/
theorem tasks_finish {s : AppState} (spawned : s.tasks.lookup id = some t) :
    ∃ turns, (∀ event ∈ turns, TurnOf id event) ∧ ∃ done,
      (final step s turns).tasks.lookup id = some done ∧ done.draining = false ∧
        done.leaving = none := by
  induction size : load t using Nat.strong_induction_on generalizing t s with
  | _ n ih =>
    by_cases draining : t.draining = true
    · obtain ⟨turns, own, finished⟩ :=
        ih (load (round t)) (size ▸ load_round draining) (tasks_round spawned) rfl
      refine ⟨[.emit id, .drain id, .pump id] ++ turns, ?_, ?_⟩
      · intro event member
        rcases List.mem_append.mp member with first | later
        · simp only [List.mem_cons, List.not_mem_nil, or_false] at first
          rcases first with rfl | rfl | rfl
          · exact .inr (.inr rfl)
          · exact .inr (.inl rfl)
          · exact .inl rfl
        · exact own event later
      · rw [final_append]
        exact finished
    · refine ⟨[.emit id], ?_, { t with leaving := none }, ?_, by simpa using draining, rfl⟩
      · intro event member
        exact .inr (.inr (List.mem_singleton.mp member))
      · simp [final, step, emitUpdate, spawned]

/-- **No session gets stuck.** After any run, turns of its own two tasks are enough for the window
to be told all of a stream, whatever else stands still. -/
theorem told_all (drawn : Drawn events) {t : GhostTasks}
    (spawned : (final step initial events).tasks.lookup id = some t) :
    ∃ request script turns, Event.start id request ∈ events ∧
      Event.opened id (.ok script) ∈ events ∧ (∀ event ∈ turns, TurnOf id event) ∧
      toldOf id (final step initial (events ++ turns)) = wholeStory id request script := by
  obtain ⟨turns, own, done, after, finished⟩ := tasks_finish spawned
  rw [← final_append] at after
  have silent (id : Text) : turns.filterMap (startRequest id) = [] := by
    refine List.filterMap_eq_nil_iff.mpr fun event member => ?_
    rcases own event member with rfl | rfl | rfl <;> rfl
  have still : Drawn (events ++ turns) := by
    intro id
    rw [List.filterMap_append, silent, List.append_nil]
    exact drawn id
  obtain ⟨request, script, started, opened, -, all⟩ := told_in_order still after
  refine ⟨request, script, turns, ?_, ?_, own, all.mpr finished⟩
  · refine (List.mem_append.mp started).resolve_right fun late => ?_
    rcases own _ late with same | same | same <;> cases same
  · refine (List.mem_append.mp opened).resolve_right fun late => ?_
    rcases own _ late with same | same | same <;> cases same

theorem both_all :
    ∃ request script turns, Event.start "a".toList request ∈ both ∧
      Event.opened "a".toList (.ok script) ∈ both ∧
      (∀ event ∈ turns, TurnOf "a".toList event) ∧
      toldOf "a".toList (final step initial (both ++ turns)) =
        wholeStory "a".toList request script :=
  told_all both_drawn
    (t := ⟨[], true, [], ⟨2, 1⟩, "x\ny".toList, true, some ("y".toList, false)⟩) rfl

/-! ## How long a session lives -/

def Closes (id : Text) (event : Event) : Prop := event = .accept id ∨ event = .reject id

/-- Anything but a start, an acceptance or a rejection of the session leaves it there or not. -/
theorem session_kept {s : AppState} {event : Event} (unstarted : startRequest id event = none)
    (open_still : ¬Closes id event) :
    ((step s event).2.sessions.lookup id).isSome = (s.sessions.lookup id).isSome := by
  by_cases own : owner event = id
  · have seen := congrArg (fun answer => answer.2.session) (sessions.own s event)
    change (single (owner event) (view (owner event) s) event).2.session =
      (step s event).2.sessions.lookup (owner event) at seen
    rw [own] at seen
    rw [← seen]
    cases event with
    | start other request =>
      simp only [owner] at own
      simp [startRequest, own] at unstarted
    | opened other stream =>
      simp only [single, view]
      split <;> rfl
    | pump | emit | look => rfl
    | drain other => simp [single, view]
    | accept other => exact absurd (.inl (congrArg Event.accept own)) open_still
    | reject other => exact absurd (.inr (congrArg Event.reject own)) open_still
  · have seen := congrArg View.session (sessions.other id s event own)
    exact congrArg Option.isSome seen

/-- **Life.** A session is kept exactly from its start until it is accepted or rejected: neither
the end of its stream nor a backend that refuses ends it. -/
theorem session_iff :
    ((final step initial events).sessions.lookup id).isSome = true ↔
      ∃ before request later, events = before ++ .start id request :: later ∧
        ∀ event ∈ later, ¬Closes id event := by
  induction events using List.reverseRecOn with
  | nil =>
    refine iff_of_false (by simp [final, initial]) ?_
    rintro ⟨before, request, later, shape, -⟩
    simp at shape
  | append_singleton events event ih =>
    rw [final_concat]
    -- a start later than the last event can only be the last event
    have split {before later : List Event} {request : GhostEditRequest}
        (shape : events ++ [event] = before ++ .start id request :: later) :
        (event = .start id request ∧ later = []) ∨
          ∃ rest, later = rest ++ [event] ∧ events = before ++ .start id request :: rest := by
      rcases List.eq_nil_or_concat later with rfl | ⟨rest, last, rfl⟩
      · exact .inl ⟨List.singleton_inj.mp (List.append_inj' shape rfl).2, rfl⟩
      · rw [List.concat_eq_append, ← List.cons_append, ← List.append_assoc] at shape
        obtain ⟨init, tail⟩ := List.append_inj' shape rfl
        rw [List.concat_eq_append, List.singleton_inj.mp tail]
        exact .inr ⟨rest, rfl, init⟩
    by_cases closes : Closes id event
    · have gone :
          ((step (final step initial events) event).2.sessions.lookup id).isSome = false := by
        rcases closes with rfl | rfl
        · rw [step, acceptGhost]
          cases found : (final step initial events).sessions.lookup id with
          | none => simp [found]
          | some session => simp
        · simp [step, rejectGhost]
      refine iff_of_false (by simp [gone]) ?_
      rintro ⟨before, request, later, shape, unclosed⟩
      obtain ⟨rfl, -⟩ | ⟨rest, rfl, -⟩ := split shape
      · rcases closes with same | same <;> cases same
      · exact unclosed event (List.mem_append_right _ (List.mem_singleton.mpr rfl)) closes
    · cases start : startRequest id event with
      | some request =>
        obtain rfl := eq_start start
        refine iff_of_true ?_ ⟨events, request, [], rfl, List.forall_mem_nil _⟩
        simp [step, startGhostEdit]
      | none =>
        rw [session_kept start closes, ih]
        constructor
        · rintro ⟨before, request, later, rfl, unclosed⟩
          refine ⟨before, request, later ++ [event], by simp, fun other member => ?_⟩
          rcases List.mem_append.mp member with old | new
          · exact unclosed other old
          · rw [List.mem_singleton.mp new]
            exact closes
        · rintro ⟨before, request, later, shape, unclosed⟩
          obtain ⟨rfl, -⟩ | ⟨rest, rfl, same⟩ := split shape
          · simp [startRequest] at start
          · exact ⟨before, request, rest, same, fun other member =>
              unclosed other (List.mem_append_left _ member)⟩

end GhostDelivery

end Devit
