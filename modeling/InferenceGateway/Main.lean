import InferenceGateway.Routes.Steps
import InferenceGateway.Transition.Run
import InferenceGateway.Upstream.MetricsScraper

/-!
# The gateway process

`gateway/main.py`: one event loop runs the requests, the scrape loop and the breaker
prober.  What runs between two `await`s is one step, and the steps of different
tasks come in any order.  An event says which task goes on, what its `await`
returned or raised, and at which time; times are not tied to each other, so that
every statement about all runs covers every schedule.
-/

namespace InferenceGateway

open Py Transition

/-- `_scrape_loop`: asleep, or awaiting a scrape made at `started`, with these
replicas to go. -/
inductive Scraper where
  | asleep
  | scraping (started : ℚ) (url : Str) (left : List Str)

/-- `_breaker_prober`: asleep, or awaiting a probe in a round that began at `started`,
with these replicas to go. -/
inductive Prober where
  | asleep
  | probing (started : ℚ) (url : Str) (left : List Str)

/-- The process. -/
structure System where
  world : World
  detectors : Detectors := []
  requests : List Request := []
  scraper : Scraper := .asleep
  prober : Prober := .asleep

/-- What can happen next. -/
inductive Event where
  /-- A request of an authenticated caller reaches the route. -/
  | arrive (p : Principal) (now : ℚ)
  /-- A request goes on. -/
  | resume (i : ℕ) (x : Input) (now : ℚ)
  /-- The scrape loop wakes up. -/
  | poll (now : ℚ)
  /-- A scrape ends: the snapshot, or `none` for any failure. -/
  | scraped (result : Option Snapshot) (now : ℚ)
  /-- The prober wakes up. -/
  | tick (now : ℚ)
  /-- A probe is answered. -/
  | probed (ok : Bool) (now : ℚ)

namespace System

variable (rt : Runtime) (σ : Settings)

/-- The process right after it has started. -/
def start (urls : List Str) (h : urls ≠ []) : System where
  world := { pool := ⟨urls, h, 0, UpstreamPool.resetBreakers urls⟩ }

/-- The breaker of a replica. -/
def breaker (s : System) (url : Str) : ReplicaBreaker := s.world.pool.breaker url

/-- The loop of `poll_once`, up to the next request it makes. -/
def pollNext (ds : Detectors) (now : ℚ) : List Str → Detectors × Scraper
  | [] => (ds, .asleep)
  | url :: left => (ds.startPoll σ url, .scraping now url left)

/-- The loop of `_breaker_prober` in the round that began at `started`, up to the next
probe it makes. -/
def visit (ds : Detectors) (started now : ℚ) (p : UpstreamPool) :
    List Str → UpstreamPool × Prober
  | [] => (p, .asleep)
  | url :: left =>
    let b := p.breaker url
    if b.state = .closed then
      visit ds started now
        (p.setBreaker url (b.recordWedge (ds.wedgeSuspected url now) started)) left
    else if b.dueForProbe started then (p, .probing started url left)
    else visit ds started now p left

/-- A round of the prober, or the rest of one. -/
def runProber (s : System) (started now : ℚ) (p : UpstreamPool) (left : List Str) : System :=
  let (pool, prober) := visit s.detectors started now p left
  { s with world := { s.world with pool }, prober }

/-- One step of the process; `none` if the event cannot happen now. -/
def step (s : System) (e : Event) : Option System :=
  match e with
  | .arrive p now => some { s with requests := s.requests ++ [{ principal := p, started := now }] }
  | .resume i x now => do
    let r ← s.requests[i]?
    let (world, r) ← r.resume rt σ s.world x now
    return { s with world, requests := s.requests.set i r }
  | .poll now => match s.scraper with
    | .asleep =>
      let (detectors, scraper) := pollNext σ s.detectors now s.world.pool.urls
      some { s with detectors, scraper }
    | _ => none
  | .scraped result now => match s.scraper with
    | .scraping started url left =>
      let (detectors, scraper) :=
        pollNext σ (s.detectors.finishPoll σ url result started) now left
      some { s with detectors, scraper }
    | _ => none
  | .tick now => match s.prober with
    | .asleep => some (s.runProber now now s.world.pool (s.world.pool.breakers.map Prod.fst))
    | _ => none
  | .probed ok now => match s.prober with
    | .probing started url left =>
      let b := (s.breaker url).recordProbe ok now (s.detectors.wedgeSuspected url now)
      some (s.runProber started now (s.world.pool.setBreaker url b) left)
    | _ => none

/-- A run of the process. -/
abbrev Runs : System → List Event → System → Prop := Run (Steps (step rt σ))

/-! ## The moves of the process -/

variable {rt σ} {s s' : System} {e : Event}

/-- What can happen in one step of the process, and what it leaves alone. -/
inductive Moves (rt : Runtime) (σ : Settings) (s : System) : Event → System → Prop
  /-- A request comes in. -/
  | arrive (p : Principal) (now : ℚ) :
      Moves rt σ s (.arrive p now)
        { s with requests := s.requests ++ [{ principal := p, started := now }] }
  /-- A request goes on. -/
  | resume {i : ℕ} {x : Input} {now : ℚ} {r : Request} {m : World × Phase} :
      s.requests[i]? = some r →
      InferenceGateway.Moves rt σ r.principal r.started now s.world r.phase x m →
      Moves rt σ s (.resume i x now)
        { s with world := m.1, requests := s.requests.set i (r.moved s.world m) }
  /-- The scrape loop wakes up. -/
  | poll (now : ℚ) : s.scraper = .asleep →
      Moves rt σ s (.poll now)
        { s with
          detectors := (pollNext σ s.detectors now s.world.pool.urls).1
          scraper := (pollNext σ s.detectors now s.world.pool.urls).2 }
  /-- A scrape ends. -/
  | scraped {started : ℚ} {url : Str} {left : List Str} (result : Option Snapshot) (now : ℚ) :
      s.scraper = .scraping started url left →
      Moves rt σ s (.scraped result now)
        { s with
          detectors := (pollNext σ (s.detectors.finishPoll σ url result started) now left).1
          scraper := (pollNext σ (s.detectors.finishPoll σ url result started) now left).2 }
  /-- The prober starts a round. -/
  | tick (now : ℚ) : s.prober = .asleep →
      Moves rt σ s (.tick now)
        (s.runProber now now s.world.pool (s.world.pool.breakers.map Prod.fst))
  /-- A probe is answered, and the round goes on. -/
  | probed {started : ℚ} {url : Str} {left : List Str} (ok : Bool) (now : ℚ) :
      s.prober = .probing started url left →
      Moves rt σ s (.probed ok now)
        (s.runProber started now
          (s.world.pool.setBreaker url
            ((s.breaker url).recordProbe ok now (s.detectors.wedgeSuspected url now))) left)

/-- Every step of the process is one of these. -/
theorem moves_of_step (h : Steps (step rt σ) s e s') : Moves rt σ s e s' := by
  cases e with
  | arrive p now => cases h; exact .arrive p now
  | resume i x now =>
      obtain ⟨r, hr, h⟩ := Option.bind_eq_some_iff.mp h
      obtain ⟨⟨world, r'⟩, hres, h⟩ := Option.bind_eq_some_iff.mp h
      obtain ⟨m, hm, hmoved⟩ := Option.map_eq_some_iff.mp hres
      cases hmoved
      cases h
      exact .resume hr (moves_of_advance hm)
  | poll now =>
      cases hs : s.scraper with
      | asleep =>
          simp only [Steps, step, hs] at h
          cases h
          exact .poll now hs
      | scraping started url left => simp [Steps, step, hs] at h
  | scraped result now =>
      cases hs : s.scraper with
      | asleep => simp [Steps, step, hs] at h
      | scraping started url left =>
          simp only [Steps, step, hs] at h
          cases h
          exact .scraped result now hs
  | tick now =>
      cases hs : s.prober with
      | asleep =>
          simp only [Steps, step, hs] at h
          cases h
          exact .tick now hs
      | probing started url left => simp [Steps, step, hs] at h
  | probed ok now =>
      cases hs : s.prober with
      | asleep => simp [Steps, step, hs] at h
      | probing started url left =>
          simp only [Steps, step, hs] at h
          cases h
          exact .probed ok now hs

end System

end InferenceGateway
