import PathPolicy.Client.Selector
import PathPolicy.Proofs.Daemon.Isolation
import PathPolicy.Proofs.Json.RoundTrip
import PathPolicy.Proofs.Wire.Path

/-!
What a client's operation asks of the daemon. It sends at most one message, which the daemon reads
as the same operation on the client's pair, with the paths as they arrive.
-/
namespace PathPolicy.Client
open Json Script Daemon
open PathPolicy.Selector (Pair Method Message SessionTable)

variable {μ : Type}

namespace Operation

def paths : Operation → List Path
  | .initialise _ paths | .refresh paths => paths
  | .setPreferences _ | .path | .tryPath | .pathDown _ _ | .close => []

def about (current : Option Pair) : Operation → Option Pair
  | .initialise pair _ => some pair
  | .setPreferences _ | .path | .tryPath | .pathDown _ _ | .refresh _ | .close => current

def served (preferences : Texts) : Operation → PathPolicy.Selector.Operation
  | .initialise _ paths => .initialise preferences (paths.map Path.clamped)
  | .setPreferences preferences => .setPreferences preferences
  | .path | .tryPath => .path
  | .pathDown fp interface => .pathDown fp interface
  | .refresh paths => .refresh (paths.map Path.clamped)
  | .close => .close

end Operation

def Step.state : Step → Selector
  | .silent s _ => s
  | .ask s _ _ _ => s

/-- All but the last selection is the same. -/
structure Selector.SameTable (s t : Selector) : Prop where
  pair : s.pair = t.pair
  preferences : s.preferences = t.preferences
  paths : s.paths = t.paths

/-- What a step tells the daemon: nothing if there is no pair, and else one message, which the
daemon reads as the operation. -/
inductive Step.Tells (s : Selector) (o : Operation) : Step → Prop
  | silent {t : Selector} {result : Except Fault (Option Path)} (hpair : o.about s.pair = none)
    (hafter : t.pair = none) : Tells s o (.silent t result)
  | ask {t : Selector} {method : Method} {message : Message}
    {finish : Except Fault Message → Selector × Except Fault (Option Path)} {pair : Pair}
    (hpair : o.about s.pair = some pair) (hfinite : message.FiniteCoordinates)
    (hmessage : PathPolicy.Selector.Operation.ofMessage method message
      = .ok (pair, o.served s.preferences))
    (hfinish : ∀ outcome, (finish outcome).1.SameTable t) : Tells s o (.ask t method message finish)

theorem candidates_toWire {m : Message} {paths : List Path} (h : m.paths = Selector.wirePaths paths) :
    PathPolicy.Selector.Operation.candidates m = .ok (paths.map Path.clamped) := by
  rw [PathPolicy.Selector.Operation.candidates, h]
  exact mapM_map_ok fun p _ => Path.ofWire_toWire p

theorem finiteCoordinates_wirePaths {m : Message} {paths : List Path} (hm : m.paths = Selector.wirePaths paths)
    (h : ∀ p ∈ paths, p.FiniteCoordinates) : m.FiniteCoordinates := by
  intro wire hwire
  rw [hm] at hwire
  cases hwire
  intro w hw
  obtain ⟨p, hp, rfl⟩ := List.mem_map.mp hw
  exact (h p hp).toWire

theorem finiteCoordinates_of_none {m : Message} (h : m.paths = none) : m.FiniteCoordinates := by
  intro paths hpaths
  rw [h] at hpaths
  cases hpaths

theorem Selector.sameTable_select (s : Selector) (reply : Message) :
    (s.select reply).1.SameTable s := by
  rw [select]
  split <;> exact ⟨rfl, rfl, rfl⟩

theorem tells_tellPair {s t : Selector} {o : Operation} {method : Method} {fill : Message → Message}
    (hpair : o.about s.pair = t.pair)
    (hfinite : ∀ pair, (fill (Message.ofPair pair)).FiniteCoordinates)
    (hmessage : ∀ pair, PathPolicy.Selector.Operation.ofMessage method (fill (Message.ofPair pair))
      = .ok (pair, o.served s.preferences)) :
    (t.tellPair method fill).Tells s o := by
  rw [Selector.tellPair]
  split
  · rename_i hnone
    exact .silent (hpair.trans hnone) hnone
  · rename_i pair hsome
    exact .ask (hpair.trans hsome) (hfinite pair) (hmessage pair) fun _ => ⟨rfl, rfl, rfl⟩

theorem tells_askPath {s : Selector} {o : Operation} (hpair : o.about s.pair = s.pair)
    (hserved : o.served s.preferences = .path) (onFault : Fault → Except Fault (Option Path)) :
    (s.askPath onFault).Tells s o := by
  rw [Selector.askPath]
  split
  · rename_i hnone
    exact .silent (hpair.trans hnone) hnone
  · rename_i pair hsome
    refine .ask (hpair.trans hsome) (finiteCoordinates_of_none rfl) (by rw [hserved]; rfl) fun outcome => ?_
    cases outcome with
    | error e => exact ⟨rfl, rfl, rfl⟩
    | ok reply => exact s.sameTable_select reply

theorem tells_step (s : Selector) {o : Operation} (h : ∀ p ∈ o.paths, p.FiniteCoordinates) :
    (s.step o).Tells s o := by
  cases o with
  | initialise pair paths =>
    refine .ask rfl (finiteCoordinates_wirePaths rfl h) ?_ fun _ => ⟨rfl, rfl, rfl⟩
    change (PathPolicy.Selector.Operation.candidates _).map
      (fun paths => (pair, PathPolicy.Selector.Operation.initialise s.preferences paths)) = _
    rw [candidates_toWire rfl]
    rfl
  | setPreferences preferences =>
    rw [Selector.step]
    exact tells_tellPair rfl (fun pair => finiteCoordinates_of_none rfl) fun pair => rfl
  | path => exact tells_askPath rfl rfl _
  | tryPath => exact tells_askPath rfl rfl _
  | pathDown fp interface =>
    rw [Selector.step]
    exact tells_tellPair rfl (fun pair => finiteCoordinates_of_none rfl) fun pair => rfl
  | refresh paths =>
    rw [Selector.step]
    refine tells_tellPair rfl (fun pair => finiteCoordinates_wirePaths rfl h) fun pair => ?_
    change (PathPolicy.Selector.Operation.candidates _).map
      (fun paths => (pair, PathPolicy.Selector.Operation.refresh paths)) = _
    rw [candidates_toWire rfl]
    rfl
  | close =>
    rw [Selector.step]
    split
    · rename_i hnone
      exact .silent hnone rfl
    · rename_i pair hsome
      exact .ask hsome (finiteCoordinates_of_none rfl) rfl fun _ => ⟨rfl, rfl, rfl⟩

/-! ### The daemon's part -/

theorem respond_of_accepted (t : Tables) {body : Bytes} {r : Request} {pair : Pair}
    {o : PathPolicy.Selector.Operation} (hparse : Request.parse body = .ok r)
    (hservice : r.service = PathPolicy.Selector.service)
    (haccepted : PathPolicy.Selector.Operation.ofRequest r = .ok (pair, o)) :
    respond t body = (((o.plan pair t.sessions).map (Except.map PathPolicy.Selector.Reply.data)).within
      fun sessions => { t with sessions }).map (Response.ofResult r.id) := by
  rw [respond, hparse]
  simp only [dispatch, if_pos hservice, PathPolicy.Selector.serve, haccepted]

theorem step_of_accepted (script : Call → μ → Outcome × μ) (d : State μ) {body : Bytes}
    {r : Request} {pair : Pair} {o : PathPolicy.Selector.Operation}
    (hparse : Request.parse body = .ok r) (hservice : r.service = PathPolicy.Selector.service)
    (haccepted : PathPolicy.Selector.Operation.ofRequest r = .ok (pair, o)) :
    let served := (o.plan pair d.tables.sessions).run script d.script
    (d.step script (.arrival body)).response
        = some (.ofResult r.id (served.1.map PathPolicy.Selector.Reply.data)) ∧
      (d.step script (.arrival body)).state
        = ⟨{ d.tables with sessions := served.2.1 }, served.2.2⟩ := by
  simp only [State.step, respond_of_accepted d.tables hparse hservice haccepted]
  cases o.plan pair d.tables.sessions <;> exact ⟨rfl, rfl⟩

theorem resolve_of_path (script : Call → μ → Outcome × μ) (m : μ) {pair : Pair} {t : SessionTable}
    {reply : PathPolicy.Selector.Reply}
    (h : ((PathPolicy.Selector.Operation.path.plan pair t).run script m).1 = .ok reply) :
    ∃ named, reply = .selected named ∧ ∀ fp ∈ named, (t.resolve pair.key fp).isSome := by
  rw [PathPolicy.Selector.Operation.plan] at h
  split at h
  · obtain ⟨results, -, hselection⟩ := bind_eq_ok.mp h
    obtain ⟨named, -, hreply⟩ := bind_eq_ok.mp hselection
    cases hreply
    exact ⟨_, rfl, fun fp hfp => (Option.mem_filter_iff.mp hfp).2⟩
  · cases h
    exact ⟨none, rfl, by rintro fp ⟨⟩⟩

theorem ofRequest_make {method : Method} {message : Message} (h : message.FiniteCoordinates)
    (id : UInt64) :
    PathPolicy.Selector.Operation.ofRequest
        (Request.make id PathPolicy.Selector.service method.name message)
      = PathPolicy.Selector.Operation.ofMessage method message := by
  have hpayload := Request.payload_make (PathPolicy.Selector.roundTrips_message h) (by decide)
    Message.empty id PathPolicy.Selector.service method.name
  simp only [PathPolicy.Selector.Operation.ofRequest, hpayload, bind, Except.bind]
  change (Method.ofName method.name).bind _ = _
  rw [Method.ofName_name]
  rfl

theorem eq_ok_of_result_ofResult {id : UInt64} {result : Except Fault (Option Json.Value)}
    {data : Option Json.Value} (h : (Response.ofResult id result).result = .ok data) :
    result = .ok data := by
  cases result with
  | error e => cases h
  | ok data => exact h

theorem shaped_selectionValue (named : Option Fingerprint) (service method : String) :
    shaped Message.empty service method (some (PathPolicy.Selector.selectionValue named))
      = .ok { Message.empty with fingerprint := named } := by
  cases named <;> rfl

end PathPolicy.Client
