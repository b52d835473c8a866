import Parley.Proofs.SessionCalls
import Mathlib.Data.List.Chain

/-!
# The lines that a session delivers

A call delivers one line or none. Whatever is called, the lines that a session delivers form a path
through the conversation of its NPC, and all that the calls do to the world can be told from that
path.
-/

namespace Parley

variable {σ : Type}

namespace Line

/-- What is shown when the line is delivered, with the announcement of an attack if it is one. -/
def messages (line : Line) (announcement : String) : List String :=
  line.text :: if line.action = .attack then [announcement] else []

/-- The collaborator that the line calls, if it calls one. -/
def call? (line : Line) (npc : Npc) : Option Call :=
  match line.action with
  | .attack => some (.attack npc.name)
  | .trade => some (.trade npc.name ⟨true, true⟩)
  | .nothing | .buy | .sell | .give | .take => none

/-- What the action of the line makes of the player and of the state of the collaborators. -/
def encounter (line : Line) (collaborators : Collaborators σ) (npc : Npc) (player : Player)
    (state : σ) : Encounter σ :=
  match line.action with
  | .attack => collaborators.attack state player npc.name
  | .trade => collaborators.trade state npc player ⟨true, true⟩
  | .nothing | .buy | .sell | .give | .take => ⟨player, state, none⟩

/-- The path opens with an entry, and each line on it is followed by one of its responses. -/
structure IsPath (entries path : List Line) : Prop where
  opens : ∀ first ∈ path.head?, first ∈ entries
  offered : path.IsChain Offers

theorem isPath_nil (entries : List Line) : IsPath entries [] :=
  ⟨by simp, .nil⟩

theorem isPath_entry {entries : List Line} {line : Line} (h : line ∈ entries) :
    IsPath entries [line] :=
  ⟨by simpa using h, .singleton line⟩

theorem IsPath.concat {entries path : List Line} {last next : Line} (h : IsPath entries path)
    (hlast : path.getLast? = some last) (hnext : last.Offers next) :
    IsPath entries (path ++ [next]) := by
  obtain ⟨front, rfl⟩ := List.getLast?_eq_some_iff.mp hlast
  refine ⟨?_, ?_⟩
  · intro first hfirst
    apply h.opens
    cases front <;> simpa using hfirst
  · refine h.offered.append (.singleton next) ?_
    simpa using hnext

end Line

namespace World

/-- The player and the state of the collaborators after the actions of the lines on a path. -/
def aftermath (collaborators : Collaborators σ) (npc : Npc) (before : Player × σ)
    (path : List Line) : Player × σ :=
  path.foldl (fun (player, state) line =>
    let encounter := line.encounter collaborators npc player state
    (encounter.player, encounter.state)) before

/-- The world once the lines on a path have been delivered in it. -/
def told (world : World σ) (collaborators : Collaborators σ) (npc : Npc) (path : List Line) :
    World σ :=
  let after := aftermath collaborators npc (world.player, world.state) path
  { world with
    player := after.1
    state := after.2
    messages := world.messages.offerAll (path.flatMap (·.messages (world.hostility npc)))
    journal := world.journal ++ (path.filterMap (·.call? npc)).toArray }

theorem told_append (world : World σ) (collaborators : Collaborators σ) (npc : Npc)
    (front back : List Line) :
    world.told collaborators npc (front ++ back) =
      (world.told collaborators npc front).told collaborators npc back := by
  simp [told, aftermath, Messages.offerAll, hostility]

@[simp]
theorem toList_messages_told (world : World σ) (collaborators : Collaborators σ) (npc : Npc)
    (path : List Line) :
    (world.told collaborators npc path).messages.toList =
      world.messages.toList ++ path.flatMap (·.messages (world.hostility npc)) := by
  simp [told]

/-- The death that a line ends in when it is delivered in this world. -/
def death? (world : World σ) (collaborators : Collaborators σ) (npc : Npc) (line : Line) :
    Option PlayerDeath :=
  (line.encounter collaborators npc world.player world.state).death

theorem act_eq_told (world : World σ) (collaborators : Collaborators σ) (npc : Npc)
    (line : Line) :
    (world.offer line.text).act collaborators npc line.action =
      (world.told collaborators npc [line], world.death? collaborators npc line) := by
  cases haction : line.action <;>
    simp [act, told, aftermath, death?, Line.encounter, Line.call?, Line.messages, haction, offer,
      settle, hostility, Messages.offerAll, TradeMode.both]

end World

namespace Session

theorem deliver_eq_told (collaborators : Collaborators σ) (session : Session) (world : World σ)
    (line : Line) :
    session.deliver collaborators world line =
      match world.death? collaborators session.npc line with
      | some death =>
        ⟨.error (.playerDied death), session.terminate,
          world.told collaborators session.npc [line]⟩
      | none =>
        ⟨.ok (), { session with phase := .after line },
          world.told collaborators session.npc [line]⟩ := by
  rw [deliver, World.act_eq_told]
  cases world.death? collaborators session.npc line <;> rfl

@[simp]
theorem world_deliver (collaborators : Collaborators σ) (session : Session) (world : World σ)
    (line : Line) :
    (session.deliver collaborators world line).world =
      world.told collaborators session.npc [line] := by
  rw [deliver_eq_told]
  split <;> rfl

@[simp]
theorem npc_deliver (collaborators : Collaborators σ) (session : Session) (world : World σ)
    (line : Line) : (session.deliver collaborators world line).session.npc = session.npc := by
  rw [deliver_eq_told]
  split <;> rfl

theorem death?_of_phase_deliver {collaborators : Collaborators σ} {session : Session}
    {world : World σ} {line : Line}
    (h : (session.deliver collaborators world line).session.phase ≠ .terminated) :
    world.death? collaborators session.npc line = none := by
  rw [deliver_eq_told] at h
  split at h
  · exact absurd rfl h
  · assumption

theorem options_of_active {session : Session} {line : Line} (h : session.phase = .active line) :
    session.options = line.responses := by
  simp [options, h, Phase.current?]

theorem options_of_idle {session : Session} (h : ∀ line, session.phase ≠ .active line) :
    session.options = [] := by
  cases hphase : session.phase with
  | active line => exact absurd hphase (h line)
  | selectingEntry | terminated => simp [options, hphase, Phase.current?]

/-- A call that needs no source of answers. -/
inductive Move
  | begin
  | advance (selection : Selection)
  | cancel
deriving DecidableEq

namespace Move

def operation : Move → Operation
  | begin => .begin
  | advance selection => .advance selection
  | cancel => .cancel

def turn (move : Move) (collaborators : Collaborators σ) (session : Session) (world : World σ) :
    Turn σ :=
  move.operation.turn collaborators session world

theorem turn_begin (collaborators : Collaborators σ) (session : Session) (world : World σ) :
    begin.turn collaborators session world = session.begin collaborators world := rfl

theorem turn_advance (collaborators : Collaborators σ) (session : Session) (world : World σ)
    (selection : Selection) :
    (advance selection).turn collaborators session world =
      session.advance collaborators world selection := rfl

/-- The line that the call delivers, if it delivers one. -/
def delivered? (session : Session) (world : World σ) : Move → Option Line
  | begin =>
    match session.phase, choose world.item? session.npc world.player session.entries with
    | .selectingEntry, .ok line => line
    | _, _ => none
  | advance (.respond choice) => session.options[choice]?
  | advance .leave => none
  | cancel => none

/-- The ways in which a call can go: the line that it delivers, if any, and what it comes to. -/
inductive Outcome (collaborators : Collaborators σ) (session : Session) (world : World σ) :
    Move → Option Line → Turn σ → Prop
  | opened {line : Line} (hphase : session.phase = .selectingEntry)
      (hchoice : choose world.item? session.npc world.player session.entries = .ok (some line)) :
    Outcome collaborators session world begin (some line)
      (session.deliver collaborators world line)
  | silent (hphase : session.phase = .selectingEntry)
      (hchoice : choose world.item? session.npc world.player session.entries = .ok none) :
    Outcome collaborators session world begin none ⟨.ok (), session.terminate, world⟩
  | unjudged {error : ConditionError} (hphase : session.phase = .selectingEntry)
      (hchoice : choose world.item? session.npc world.player session.entries = .error error) :
    Outcome collaborators session world begin none
      ⟨.error (.condition error), session.terminate, world⟩
  | alreadyStarted (hphase : session.phase ≠ .selectingEntry) :
    Outcome collaborators session world begin none ⟨.error .alreadyStarted, session, world⟩
  | answered {current line : Line} {choice : Nat} (hphase : session.phase = .active current)
      (hchoice : current.responses[choice]? = some line) :
    Outcome collaborators session world (advance (.respond choice)) (some line)
      (session.deliver collaborators world line)
  | unavailable {current : Line} {choice : Nat} (hphase : session.phase = .active current)
      (hchoice : current.responses.length ≤ choice) :
    Outcome collaborators session world (advance (.respond choice)) none
      ⟨.error (.invalidSelection choice current.responses.length), session, world⟩
  | left {current : Line} (hphase : session.phase = .active current) :
    Outcome collaborators session world (advance .leave) none
      ⟨.ok (), session.terminate, world⟩
  | notStarted {selection : Selection} (hphase : session.phase = .selectingEntry) :
    Outcome collaborators session world (advance selection) none
      ⟨.error .notStarted, session, world⟩
  | ended {selection : Selection} (hphase : session.phase = .terminated) :
    Outcome collaborators session world (advance selection) none ⟨.ok (), session, world⟩
  | cancelled :
    Outcome collaborators session world cancel none ⟨.ok (), session.terminate, world⟩

theorem delivered?_advance_of_idle {session : Session} (h : ∀ line, session.phase ≠ .active line)
    (world : World σ) (selection : Selection) :
    (advance selection).delivered? session world = none := by
  cases selection <;> simp [delivered?, options_of_idle h]

theorem outcome_turn (collaborators : Collaborators σ) (session : Session) (world : World σ)
    (move : Move) :
    Outcome collaborators session world move (move.delivered? session world)
      (move.turn collaborators session world) := by
  cases move with
  | begin =>
    rw [turn_begin, Session.begin, delivered?]
    cases hphase : session.phase with
    | selectingEntry =>
      cases hchoice : choose world.item? session.npc world.player session.entries with
      | error error => exact .unjudged hphase hchoice
      | ok chosen =>
        cases chosen with
        | none => exact .silent hphase hchoice
        | some line => exact .opened hphase hchoice
    | active line => exact .alreadyStarted (by simp [hphase])
    | terminated => exact .alreadyStarted (by simp [hphase])
  | advance selection =>
    rw [turn_advance, Session.advance]
    cases hphase : session.phase with
    | selectingEntry =>
      rw [delivered?_advance_of_idle (by simp [hphase])]
      exact .notStarted hphase
    | terminated =>
      rw [delivered?_advance_of_idle (by simp [hphase])]
      exact .ended hphase
    | active current =>
      cases selection with
      | leave => exact .left hphase
      | respond choice =>
        simp only [delivered?, options_of_active hphase]
        cases hchoice : current.responses[choice]? with
        | none => exact .unavailable hphase (List.getElem?_eq_none_iff.mp hchoice)
        | some line => exact .answered hphase hchoice
  | cancel => exact .cancelled

/-- A call that delivers no line leaves the world alone, and ends the session if it changes it. -/
theorem Outcome.quiet {collaborators : Collaborators σ} {session : Session} {world : World σ}
    {move : Move} {turn : Turn σ} (h : Outcome collaborators session world move none turn) :
    turn.world = world ∧ (turn.session = session ∨ turn.session = session.terminate) := by
  cases h with
  | silent | unjudged | left | cancelled => exact ⟨rfl, .inr rfl⟩
  | alreadyStarted | unavailable | notStarted | ended => exact ⟨rfl, .inl rfl⟩

theorem Outcome.delivers {collaborators : Collaborators σ} {session : Session} {world : World σ}
    {move : Move} {line : Line} {turn : Turn σ}
    (h : Outcome collaborators session world move (some line) turn) :
    turn = session.deliver collaborators world line ∧ session.phase ≠ .terminated := by
  cases h with
  | opened hphase | answered hphase => exact ⟨rfl, by simp [hphase]⟩

end Move

/-- The lines that a session delivers, call by call. -/
def deliveries (collaborators : Collaborators σ) (session : Session) (world : World σ) :
    List Move → List Line
  | [] => []
  | move :: rest =>
    let turn := move.turn collaborators session world
    (move.delivered? session world).toList
      ++ deliveries collaborators turn.session turn.world rest

/-- The session has delivered the lines on this path, and stands where they lead. -/
structure OnPath (entries path : List Line) (session : Session) : Prop where
  entries_eq : session.entries = entries
  isPath : Line.IsPath entries path
  fresh : session.phase = .selectingEntry → path = []
  waiting : ∀ line, session.phase = .active line →
    path.getLast? = some line ∧ line.responses ≠ []

theorem onPath_new (registry : Registry) (npc : Npc) :
    OnPath (registry.entries npc.name) [] (new registry npc) :=
  ⟨rfl, Line.isPath_nil _, fun _ => rfl, by simp [new]⟩

section OnPath

variable {entries path : List Line} {session : Session}

theorem OnPath.terminate (h : OnPath entries path session) :
    OnPath entries path session.terminate :=
  ⟨h.entries_eq, h.isPath, by simp [Session.terminate], by simp [Session.terminate]⟩

theorem OnPath.deliver (h : OnPath entries path session) (collaborators : Collaborators σ)
    (world : World σ) {line : Line} (hpath : Line.IsPath entries (path ++ [line])) :
    OnPath entries (path ++ [line]) (session.deliver collaborators world line).session := by
  rw [deliver_eq_told]
  split
  · exact ⟨h.entries_eq, hpath, by simp [Session.terminate], by simp [Session.terminate]⟩
  · refine ⟨h.entries_eq, hpath, ?_, ?_⟩
    · simp only [Phase.after]
      split <;> simp
    · intro next hphase
      simp only [Phase.after] at hphase
      split at hphase
      · cases hphase
      · next hlast =>
        cases hphase
        exact ⟨List.getLast?_concat, mt List.isEmpty_iff.mpr hlast⟩

/-- A call extends the path by the line that it delivers. -/
theorem OnPath.turn (h : OnPath entries path session) (collaborators : Collaborators σ)
    (world : World σ) (move : Move) :
    OnPath entries (path ++ (move.delivered? session world).toList)
      (move.turn collaborators session world).session := by
  have houtcome := move.outcome_turn collaborators session world
  generalize move.turn collaborators session world = turn at houtcome ⊢
  generalize move.delivered? session world = line? at houtcome ⊢
  cases line? with
  | none =>
    rw [Option.toList_none, List.append_nil]
    obtain ⟨-, hsession | hsession⟩ := houtcome.quiet
    · rwa [hsession]
    · rw [hsession]
      exact h.terminate
  | some line =>
    cases houtcome with
    | opened hphase hchoice =>
      have hentry := h.entries_eq ▸ mem_of_choose hchoice
      obtain rfl := h.fresh hphase
      exact h.deliver collaborators world (Line.isPath_entry hentry)
    | answered hphase hchoice =>
      have hoffers := List.mem_of_getElem? hchoice
      have hpath := h.isPath.concat (h.waiting _ hphase).1 hoffers
      exact h.deliver collaborators world hpath

theorem OnPath.callAll (h : OnPath entries path session) (collaborators : Collaborators σ)
    (world : World σ) (moves : List Move) :
    OnPath entries (path ++ deliveries collaborators session world moves)
      (callAll collaborators session world (moves.map Move.operation)).1 := by
  induction moves generalizing path session world with
  | nil => simpa [Session.callAll, deliveries] using h
  | cons move rest ih =>
    have hrest := ih (h.turn collaborators world move) (move.turn collaborators session world).world
    rwa [List.append_assoc] at hrest

end OnPath

end Session

/-- No line on the path ends in the player's death. -/
def World.Survives (world : World σ) (collaborators : Collaborators σ) (npc : Npc)
    (path : List Line) : Prop :=
  ∀ front line, front ++ [line] <+: path →
    (world.told collaborators npc front).death? collaborators npc line = none

theorem World.Survives.concat {world : World σ} {collaborators : Collaborators σ} {npc : Npc}
    {path : List Line} {last : Line} (h : world.Survives collaborators npc path)
    (hlast : (world.told collaborators npc path).death? collaborators npc last = none) :
    world.Survives collaborators npc (path ++ [last]) := by
  intro front line hprefix
  rcases List.prefix_concat_iff.mp hprefix with heq | hprefix
  · obtain ⟨rfl, hline⟩ := List.append_inj' heq rfl
    obtain rfl := List.singleton_inj.mp hline
    exact hlast
  · exact h front line hprefix

namespace Session

/-- The session has delivered the lines on this path, starting in one world and ending in another,
and lives on only if the player does. -/
structure Traced (collaborators : Collaborators σ) (npc : Npc) (entries : List Line)
    (start : World σ) (path : List Line) (session : Session) (world : World σ) : Prop
    extends OnPath entries path session where
  npc_eq : session.npc = npc
  world_eq : world = start.told collaborators npc path
  survived : session.phase ≠ .terminated → start.Survives collaborators npc path
  ending : ∀ front line, front ++ [line] <+: path →
    (start.told collaborators npc front).death? collaborators npc line ≠ none →
      front ++ [line] = path

section Traced

variable {collaborators : Collaborators σ} {npc : Npc} {entries path : List Line}
  {start world : World σ} {session : Session}

theorem Traced.turn (h : Traced collaborators npc entries start path session world)
    (move : Move) :
    let turn := move.turn collaborators session world
    Traced collaborators npc entries start (path ++ (move.delivered? session world).toList)
      turn.session turn.world := by
  have hpath := h.toOnPath.turn collaborators world move
  have houtcome := move.outcome_turn collaborators session world
  dsimp only
  generalize move.turn collaborators session world = turn at hpath houtcome ⊢
  generalize move.delivered? session world = line? at hpath houtcome ⊢
  cases line? with
  | none =>
    rw [Option.toList_none, List.append_nil] at hpath ⊢
    obtain ⟨hworld, hsession⟩ := houtcome.quiet
    refine ⟨hpath, ?_, hworld ▸ h.world_eq, fun hlives => h.survived ?_, h.ending⟩
    · rcases hsession with hsession | hsession <;> exact hsession ▸ h.npc_eq
    · rcases hsession with hsession | hsession
      · exact hsession ▸ hlives
      · exact absurd rfl (hsession ▸ hlives)
  | some line =>
    obtain ⟨rfl, hlives⟩ := houtcome.delivers
    have hsurvived := h.survived hlives
    refine ⟨hpath, ?_, ?_, fun hphase => ?_, fun front last hprefix hdeath => ?_⟩
    · rw [npc_deliver, h.npc_eq]
    · rw [world_deliver, h.npc_eq, Option.toList_some, World.told_append, ← h.world_eq]
    · have hnone := death?_of_phase_deliver hphase
      rw [h.npc_eq, h.world_eq] at hnone
      exact hsurvived.concat hnone
    · rcases List.prefix_concat_iff.mp hprefix with heq | hprefix
      · exact heq
      · exact absurd (hsurvived front last hprefix) hdeath

theorem Traced.callAll (h : Traced collaborators npc entries start path session world)
    (moves : List Move) :
    let (session', world') := callAll collaborators session world (moves.map Move.operation)
    Traced collaborators npc entries start
      (path ++ deliveries collaborators session world moves) session' world' := by
  induction moves generalizing path session world with
  | nil => simpa [Session.callAll, deliveries] using h
  | cons move rest ih =>
    have hrest := ih (h.turn move)
    rwa [List.append_assoc] at hrest

end Traced

end Session

end Parley
