import Mathlib.Data.List.Chain
import Mathlib.Data.List.Nodup
import InferenceGateway.Upstream.Attempts
import InferenceGateway.Upstream.Routing

/-!
# Who gets a turn

`UpstreamPool.pick` is "round-robin over the healthy ones".  One counter walks two lists: all
the closed replicas for a first attempt, and for a retry the same list without the replica
just chosen, modulo a length that is one less.

A rotation is a sequence of such calls, in which a first attempt may be followed by one retry
and outcomes are recorded in between.  `Covers` says that enough consecutive picks choose every
replica.  A window with fewer retries than there are replicas does; with as many retries a
replica can be skipped for ever.
-/

namespace InferenceGateway

open Py Transition

/-! ## Windows -/

/-- A list of `m` blocks, fewer than `m` of its elements marked: one of the blocks has no
marked element. -/
theorem exists_block {α : Type} {n : ℕ} (mark : α → Bool) : ∀ (m : ℕ) (l : List α),
    l.length = m * n → l.countP mark < m →
      ∃ a b c, l = a ++ b ++ c ∧ b.length = n ∧ ∀ x ∈ b, mark x = false := by
  intro m
  induction m with
  | zero =>
      intro l _ hcount
      exact absurd hcount (Nat.not_lt_zero _)
  | succ m ih =>
      intro l hlen hcount
      have hn : n ≤ l.length := by
        rw [hlen, Nat.succ_mul]
        exact Nat.le_add_left _ _
      have hsplit : (l.take n).countP mark + (l.drop n).countP mark = l.countP mark := by
        rw [← List.countP_append, List.take_append_drop]
      by_cases hmark : (l.take n).countP mark = 0
      · refine ⟨[], l.take n, l.drop n, ?_, List.length_take_of_le hn, ?_⟩
        · rw [List.nil_append, List.take_append_drop]
        · intro x hx
          have := List.countP_eq_zero.mp hmark x hx
          simpa using this
      · obtain ⟨a, b, c, habc, hb, hfree⟩ := ih (l.drop n)
          (by rw [List.length_drop, hlen, Nat.succ_mul, Nat.add_sub_cancel]) (by omega)
        refine ⟨l.take n ++ a, b, c, ?_, hb, hfree⟩
        rw [List.append_assoc, List.append_assoc, ← List.append_assoc a, ← habc,
          List.take_append_drop]

/-! ## Rotations -/

/-- A replica that was picked, and whether by a retry. -/
structure Pick where
  retry : Bool
  url : Str
  deriving DecidableEq

/-- A pool, the replica that a retry would exclude now, and the picks made so far, which no code
reads. -/
structure Rotation where
  pool : UpstreamPool
  last : Option Str := none
  picked : List Pick := []

/-- What happens to a pool between the start of one request and the next. -/
inductive PoolCall where
  /-- `pick()`, for a first attempt. -/
  | first (now : ℚ)
  /-- `pick(exclude=upstream)`, for the retry of the attempt just made. -/
  | retry (now : ℚ)
  /-- `record`, for the outcome of an attempt. -/
  | record (url : Str) (outcome : Outcome) (now : ℚ)

namespace Rotation

variable (σ : Settings)

/-- A pick that returns; the next retry, if it is a first attempt, excludes what it returned. -/
def turn (s : Rotation) (retry : Bool) (exclude : Option Str) (now : ℚ) : Option Rotation :=
  match s.pool.pick σ exclude now with
  | (.ok url, pool) =>
    some ⟨pool, if retry then none else some url, s.picked ++ [⟨retry, url⟩]⟩
  | (.error _, _) => none

/-- A call; there is a retry only after a first attempt. -/
def step (s : Rotation) : PoolCall → Option Rotation
  | .first now => s.turn σ false none now
  | .retry now => s.last.bind fun url ↦ s.turn σ true (some url) now
  | .record url outcome now => some { s with pool := s.pool.record url outcome now }

/-- Every replica is closed. -/
def AllClosed (s : Rotation) : Prop := ∀ u ∈ s.pool.urls, (s.pool.breaker u).state = .closed

/-- A rotation from one state to another, all replicas closed before every call. -/
abbrev Rotates : Rotation → List PoolCall → Rotation → Prop :=
  Run (Guarded (Steps (step σ)) fun s _ ↦ s.AllClosed)

/-- In every rotation over these replicas, whatever the counter was at its start, every window
of `n ^ 2` consecutive picks, among those that meet a condition, chooses each of the `n`
replicas. -/
def Covers (urls : List Str) (P : List Pick → Prop) : Prop :=
  ∀ (s t : Rotation) (calls : List PoolCall), s.pool.urls = urls → s.last = none →
    s.picked = [] → Rotates σ s calls t → ∀ before window after,
      t.picked = before ++ window ++ after → window.length = urls.length ^ 2 → P window →
        ∀ u ∈ urls, ∃ pick ∈ window, pick.url = u

end Rotation

/-! ## One pick -/

namespace UpstreamPool

variable {σ : Settings} {p : UpstreamPool} {exclude : Option Str} {now : ℚ} {u : Str}

/-- A replica is there wherever a turn takes the counter. -/
theorem exists_turn {urls : List Str} (h : urls ≠ []) (i : ℕ) :
    ∃ v, urls[i % urls.length]? = some v := by
  have hlt : i % urls.length < urls.length := Nat.mod_lt _ (List.length_pos_iff.mpr h)
  exact ⟨_, List.getElem?_eq_getElem hlt⟩

/-- All replicas closed and none excluded, all are candidates. -/
theorem candidates_eq_urls (hclosed : ∀ u ∈ p.urls, (p.breaker u).state = .closed) :
    p.candidates none = p.urls := by
  have hall : p.closed = p.urls := by
    refine List.filter_eq_self.mpr fun u hu ↦ ?_
    rw [ReplicaBreaker.allows, decide_eq_true (hclosed u hu)]
  rcases p.candidates_cases none with ⟨-, hc⟩ | ⟨-, hc⟩
  · exact hc.trans hall
  · rw [hc, hall]
    refine List.filter_eq_self.mpr fun u _ ↦ ?_
    exact decide_eq_true (Option.some_ne_none u)

/-- With the breaker on, `pick` takes the counter to the next of the candidates. -/
theorem pick_of_candidates {c : Str} {cs : List Str} (hσ : σ.breakerEnabled = true)
    (h : p.candidates exclude = c :: cs) : p.pick σ exclude now =
      (.ok ((c :: cs).getD ((p.next + 1) % (c :: cs).length) c),
        { p with next := (p.next + 1) % (c :: cs).length }) := by
  unfold pick
  rw [if_neg (not_not.mpr hσ), h]

/-- Without a breaker, or without an exclusion, `pick` takes the counter to the next of all
replicas. -/
theorem pick_next (hclosed : ∀ u ∈ p.urls, (p.breaker u).state = .closed)
    (h : σ.breakerEnabled = true → exclude = none) :
    ∃ v, p.urls[(p.next + 1) % p.urls.length]? = some v ∧
      p.pick σ exclude now = (.ok v, { p with next := (p.next + 1) % p.urls.length }) := by
  obtain ⟨v, hv⟩ := exists_turn p.urls_ne_nil (p.next + 1)
  refine ⟨v, hv, ?_⟩
  have hget (default : Str) : p.urls.getD ((p.next + 1) % p.urls.length) default = v := by
    rw [List.getD_eq_getElem?_getD, hv]
    rfl
  by_cases hσ : σ.breakerEnabled = true
  · obtain rfl := h hσ
    obtain ⟨c, cs, hcons⟩ := List.exists_cons_of_ne_nil p.urls_ne_nil
    rw [pick_of_candidates hσ ((candidates_eq_urls hclosed).trans hcons), ← hcons, hget]
  · unfold pick
    rw [if_pos hσ]
    dsimp only
    rw [hget]

/-- With the breaker on, a retry picks another replica, if there is another. -/
theorem pick_other (hσ : σ.breakerEnabled = true) (hnodup : p.urls.Nodup)
    (hclosed : ∀ u ∈ p.urls, (p.breaker u).state = .closed) (u : Str) (now : ℚ) :
    ∃ v ∈ p.urls, ∃ next, (1 < p.urls.length → v ≠ u) ∧
      p.pick σ (some u) now = (.ok v, { p with next }) := by
  rcases pick_cases p (some u) now hσ with ⟨hnil, -⟩ | ⟨v, hv, next, hp⟩
  · obtain ⟨w, hw⟩ := List.exists_mem_of_ne_nil _ p.urls_ne_nil
    exact absurd (hclosed w hw) ((candidates_eq_nil_iff _).mp hnil w hw)
  · refine ⟨v, (mem_closed.mp (mem_closed_of_mem_candidates hv)).1, next, ?_, hp⟩
    intro hlen hvu
    have hsingle : p.urls ≠ [u] := by
      intro h
      rw [h] at hlen
      exact absurd hlen (Nat.lt_irrefl 1)
    obtain hnil | ⟨w, hw, hne⟩ := (List.Nodup.ne_singleton_iff hnodup u).mp hsingle
    · exact p.urls_ne_nil hnil
    have hother : some w ≠ some u := fun h ↦ hne (Option.some.inj h)
    exact ne_exclude_of_mem_candidates ⟨w, mem_closed.mpr ⟨hw, hclosed w hw⟩, hother⟩ hv
      (congrArg some hvu)

end UpstreamPool

namespace Rotation

/-! ## Consecutive picks -/

/-- How a pick follows the one before it.  Two that walk the list of all replicas are next to
each other there; a retry goes elsewhere if the breaker is on and there is an elsewhere. -/
structure Follows (σ : Settings) (urls : List Str) (a b : Pick) : Prop where
  next : (σ.breakerEnabled = true → a.retry = false ∧ b.retry = false) →
    ∃ i, urls[i]? = some a.url ∧ urls[(i + 1) % urls.length]? = some b.url
  other : b.retry = true → σ.breakerEnabled = true → 1 < urls.length → b.url ≠ a.url

/-- The picks of a rotation follow each other, and the counter stands where the last one left
it, if that walked the list of all replicas. -/
structure Linked (σ : Settings) (urls : List Str) (s : Rotation) : Prop where
  replicas : s.pool.urls = urls
  chain : s.picked.IsChain (Follows σ urls)
  mem : ∀ a ∈ s.picked, a.url ∈ urls
  counter : ∀ a ∈ s.picked.getLast?, (σ.breakerEnabled = true → a.retry = false) →
    urls[s.pool.next]? = some a.url
  last : ∀ u, s.last = some u → s.picked.getLast? = some ⟨false, u⟩

variable {σ : Settings} {urls : List Str} {s t : Rotation} {call : PoolCall}
  {calls : List PoolCall}

/-- What a call that is made has done. -/
theorem step_cases (h : step σ s call = some t) :
    (∃ now u pool, call = .first now ∧ s.pool.pick σ none now = (.ok u, pool) ∧
      t = ⟨pool, some u, s.picked ++ [⟨false, u⟩]⟩) ∨
    (∃ now v u pool, call = .retry now ∧ s.last = some v ∧
      s.pool.pick σ (some v) now = (.ok u, pool) ∧
      t = ⟨pool, none, s.picked ++ [⟨true, u⟩]⟩) ∨
    ∃ url outcome now, call = .record url outcome now ∧
      t = { s with pool := s.pool.record url outcome now } := by
  cases call with
  | first now =>
      left
      simp only [step, turn] at h
      split at h
      · rename_i u pool hp
        cases h
        exact ⟨now, u, pool, rfl, hp, rfl⟩
      · cases h
  | retry now =>
      right
      left
      obtain ⟨v, hv, h⟩ := Option.bind_eq_some_iff.mp h
      simp only [turn] at h
      split at h
      · rename_i u pool hp
        cases h
        exact ⟨now, v, u, pool, rfl, hv, hp, rfl⟩
      · cases h
  | record url outcome now =>
      right
      right
      cases h
      exact ⟨url, outcome, now, rfl, rfl⟩

/-- A pick that follows the one before it keeps the picks linked. -/
theorem Linked.pick (hs : Linked σ urls s) {next : ℕ} {b : Pick} {last : Option Str}
    (hfollows : ∀ a ∈ s.picked.getLast?, Follows σ urls a b) (hmem : b.url ∈ urls)
    (hcounter : (σ.breakerEnabled = true → b.retry = false) → urls[next]? = some b.url)
    (hlast : ∀ u, last = some u → b = ⟨false, u⟩) :
    Linked σ urls ⟨{ s.pool with next }, last, s.picked ++ [b]⟩ where
  replicas := hs.replicas
  chain := by
    refine hs.chain.append (.singleton b) fun a ha c hc ↦ ?_
    obtain rfl : b = c := by simpa using hc
    exact hfollows a ha
  mem := by
    intro a ha
    rcases List.mem_append.mp ha with ha | ha
    · exact hs.mem a ha
    · obtain rfl := List.mem_singleton.mp ha
      exact hmem
  counter := by
    intro a ha
    rw [List.getLast?_concat] at ha
    obtain rfl : b = a := by simpa using ha
    exact hcounter
  last := by
    intro u hu
    rw [List.getLast?_concat, hlast u hu]

/-- Every call keeps the picks linked. -/
theorem Linked.step (hnodup : urls.Nodup) (hs : Linked σ urls s) (hclosed : s.AllClosed)
    (h : step σ s call = some t) : Linked σ urls t := by
  obtain rfl := hs.replicas
  rcases step_cases h with ⟨now, u, pool, -, hp, rfl⟩ | ⟨now, v, u, pool, -, hv, hp, rfl⟩ |
    ⟨url, outcome, now, -, rfl⟩
  · obtain ⟨w, hw, hpick⟩ := @UpstreamPool.pick_next σ s.pool none now hclosed fun _ ↦ rfl
    rw [hpick] at hp
    cases hp
    refine hs.pick ?_ (List.mem_of_getElem? hw) (fun _ ↦ hw) fun u hu ↦ by cases hu; rfl
    intro a ha
    constructor
    · intro hwide
      exact ⟨s.pool.next, hs.counter a ha fun hσ ↦ (hwide hσ).1, hw⟩
    · exact nofun
  · have hfirst : ∀ a ∈ s.picked.getLast?, a = ⟨false, v⟩ := by
      intro a ha
      rw [hs.last v hv] at ha
      exact (Option.some.inj ha).symm
    by_cases hσ : σ.breakerEnabled = true
    · obtain ⟨w, hw, next, hne, hpick⟩ := UpstreamPool.pick_other hσ hnodup hclosed v now
      rw [hpick] at hp
      cases hp
      refine hs.pick ?_ hw (fun h ↦ nomatch h hσ) nofun
      intro a ha
      obtain rfl := hfirst a ha
      constructor
      · intro hwide
        exact nomatch (hwide hσ).2
      · intro _ _
        exact hne
    · obtain ⟨w, hw, hpick⟩ := @UpstreamPool.pick_next σ s.pool (some v) now hclosed
        fun h ↦ absurd h hσ
      rw [hpick] at hp
      cases hp
      refine hs.pick ?_ (List.mem_of_getElem? hw) (fun _ ↦ hw) nofun
      intro a ha
      constructor
      · intro _
        exact ⟨s.pool.next, hs.counter a ha fun h ↦ absurd h hσ, hw⟩
      · intro _ h
        exact absurd h hσ
  · have hrecord : s.pool.record url outcome now =
        s.pool.setBreaker url ((s.pool.breaker url).fold outcome now) := UpstreamPool.record_eq
    rw [hrecord]
    exact ⟨rfl, hs.chain, hs.mem, hs.counter, hs.last⟩

/-- In every rotation the picks are linked. -/
theorem Linked.run (hnodup : urls.Nodup) (h : Rotates σ s calls t) (hs : Linked σ urls s) :
    Linked σ urls t :=
  h.invariant (fun hstep hs ↦ hs.step hnodup hstep.2 hstep.1) hs

/-! ## Windows that choose every replica -/

section Windows

variable {a b : Pick} {window : List Pick} {u : Str}

/-- Picks that walk the list of all replicas take one after another, from where the first one
stands. -/
theorem url_of_wide (hnodup : urls.Nodup) : ∀ (window : List Pick) (a : Pick) (i : ℕ),
    (a :: window).IsChain (Follows σ urls) →
    (∀ c ∈ a :: window, σ.breakerEnabled = true → c.retry = false) → urls[i]? = some a.url →
      ∀ k c, (a :: window)[k]? = some c → urls[(i + k) % urls.length]? = some c.url := by
  intro window
  induction window with
  | nil =>
      intro a i _ _ hi k c hk
      have hlt : i < urls.length := (List.getElem?_eq_some_iff.mp hi).1
      cases k with
      | zero =>
          cases hk
          rwa [Nat.add_zero, Nat.mod_eq_of_lt hlt]
      | succ k => cases hk
  | cons b window ih =>
      intro a i hchain hwide hi k c hk
      have hlt : i < urls.length := (List.getElem?_eq_some_iff.mp hi).1
      cases k with
      | zero =>
          cases hk
          rwa [Nat.add_zero, Nat.mod_eq_of_lt hlt]
      | succ k =>
          obtain ⟨hab, hrest⟩ := List.isChain_cons_cons.mp hchain
          obtain ⟨j, hj, hnext⟩ := hab.next fun hσ ↦
            ⟨hwide a List.mem_cons_self hσ,
              hwide b (List.mem_cons_of_mem _ List.mem_cons_self) hσ⟩
          obtain rfl : i = j := (List.getElem?_inj hlt hnodup).mp (hi.trans hj.symm)
          have hstep := ih b _ hrest (fun c hc ↦ hwide c (List.mem_cons_of_mem _ hc)) hnext k c hk
          rwa [Nat.mod_add_mod, Nat.add_assoc, Nat.add_comm 1 k] at hstep

/-- As many picks that walk the list of all replicas as there are replicas choose them all. -/
theorem covers_of_wide (hnodup : urls.Nodup) (hchain : window.IsChain (Follows σ urls))
    (hmem : ∀ c ∈ window, c.url ∈ urls)
    (hwide : ∀ c ∈ window, σ.breakerEnabled = true → c.retry = false)
    (hlen : window.length = urls.length) (hu : u ∈ urls) : ∃ c ∈ window, c.url = u := by
  obtain ⟨j, hj⟩ := List.mem_iff_getElem?.mp hu
  have hjlt : j < urls.length := (List.getElem?_eq_some_iff.mp hj).1
  cases window with
  | nil =>
      rw [← hlen] at hjlt
      exact absurd hjlt (Nat.not_lt_zero _)
  | cons a window =>
      obtain ⟨i, hi⟩ := List.mem_iff_getElem?.mp (hmem a List.mem_cons_self)
      have hilt : i < urls.length := (List.getElem?_eq_some_iff.mp hi).1
      have hk : (j + (urls.length - i)) % urls.length < (a :: window).length := by
        rw [hlen]
        exact Nat.mod_lt _ (Nat.zero_lt_of_lt hjlt)
      have hturn : (i + (j + (urls.length - i)) % urls.length) % urls.length = j := by
        have harith : i + (j + (urls.length - i)) = j + urls.length := by omega
        rw [Nat.add_mod_mod, harith, Nat.add_mod_right, Nat.mod_eq_of_lt hjlt]
      have hat := url_of_wide hnodup window a i hchain hwide hi _ _ (List.getElem?_eq_getElem hk)
      rw [hturn, hj] at hat
      exact ⟨_, List.getElem_mem hk, (Option.some.inj hat).symm⟩

/-- Of two replicas, a pick and the one after it choose both, if the second is a retry or both
are first attempts. -/
theorem Follows.url_ne {x y : Str} (hxy : x ≠ y) (h : Follows σ [x, y] a b)
    (hσ : σ.breakerEnabled = true) (hkind : b.retry = true ∨ a.retry = false) :
    b.url ≠ a.url := by
  cases hb : b.retry with
  | true => exact h.other hb hσ (Nat.lt_succ_self 1)
  | false =>
      have ha : a.retry = false := hkind.resolve_left (by rw [hb]; exact Bool.false_ne_true)
      obtain ⟨i, hi, hnext⟩ := h.next fun _ ↦ ⟨ha, hb⟩
      have hlt : i < 2 := (List.getElem?_eq_some_iff.mp hi).1
      intro hurl
      rw [hurl, ← hi] at hnext
      obtain rfl | rfl : i = 0 ∨ i = 1 := by omega
      · have hyx : y = x := by simpa using hnext
        exact hxy hyx.symm
      · have hyx : x = y := by simpa using hnext
        exact hxy hyx

/-- Two replicas are both chosen by any three consecutive picks. -/
theorem covers_two {x y : Str} {c : Pick} (hxy : x ≠ y) (hσ : σ.breakerEnabled = true)
    (hchain : (a :: b :: c :: window).IsChain (Follows σ [x, y]))
    (hmem : ∀ d ∈ a :: b :: c :: window, d.url ∈ [x, y]) (hu : u ∈ [x, y]) :
    ∃ d ∈ a :: b :: c :: window, d.url = u := by
  obtain ⟨hab, hchain⟩ := List.isChain_cons_cons.mp hchain
  obtain ⟨hbc, -⟩ := List.isChain_cons_cons.mp hchain
  have ha : a ∈ a :: b :: c :: window := List.mem_cons_self
  have hb : b ∈ a :: b :: c :: window := List.mem_cons_of_mem _ List.mem_cons_self
  have hc : c ∈ a :: b :: c :: window :=
    List.mem_cons_of_mem _ (List.mem_cons_of_mem _ List.mem_cons_self)
  -- two picks that differ are the two replicas
  have hboth {d e : Pick} (hd : d ∈ a :: b :: c :: window) (he : e ∈ a :: b :: c :: window)
      (hne : e.url ≠ d.url) : ∃ d ∈ a :: b :: c :: window, d.url = u := by
    have hdu := hmem d hd
    have heu := hmem e he
    simp only [List.mem_cons, List.not_mem_nil, or_false] at hdu heu hu
    by_cases hdeq : d.url = u
    · exact ⟨d, hd, hdeq⟩
    · refine ⟨e, he, ?_⟩
      grind
  by_cases hretry : b.retry = true
  · exact hboth ha hb (hab.url_ne hxy hσ (.inl hretry))
  · exact hboth hb hc (hbc.url_ne hxy hσ (.inr (Bool.not_eq_true _ ▸ hretry)))

/-- One or two replicas: every window chooses them. -/
theorem covers_of_le_two (hnodup : urls.Nodup) (hσ : σ.breakerEnabled = true)
    (hurls : urls.length ≤ 2) (hchain : window.IsChain (Follows σ urls))
    (hmem : ∀ c ∈ window, c.url ∈ urls) (hlen : window.length = urls.length ^ 2)
    (hu : u ∈ urls) : ∃ c ∈ window, c.url = u := by
  match urls, hurls with
  | [], _ => exact absurd hu List.not_mem_nil
  | [x], _ =>
      obtain ⟨a, rfl⟩ := List.length_eq_one_iff.mp hlen
      refine ⟨a, List.mem_singleton_self a, ?_⟩
      rw [List.mem_singleton.mp (hmem a (List.mem_singleton_self a)), List.mem_singleton.mp hu]
  | [x, y], _ =>
      have hxy : x ≠ y := by simpa using hnodup
      match window, hlen with
      | a :: b :: c :: window, _ => exact covers_two hxy hσ hchain hmem hu

/-- A window of a linked rotation chooses every replica if the breaker is off, or there are at
most two replicas, or it has fewer retries than there are replicas. -/
theorem Linked.covers (hs : Linked σ urls s) (hnodup : urls.Nodup) {before after : List Pick}
    (hpicked : s.picked = before ++ window ++ after) (hlen : window.length = urls.length ^ 2)
    (h : σ.breakerEnabled = false ∨ urls.length ≤ 2 ∨ window.countP Pick.retry < urls.length)
    (hu : u ∈ urls) : ∃ c ∈ window, c.url = u := by
  have hpart : window <:+: s.picked := ⟨before, after, hpicked.symm⟩
  have hchain := List.IsChain.infix hs.chain hpart
  have hmem : ∀ c ∈ window, c.url ∈ urls := fun c hc ↦ hs.mem c (hpart.subset hc)
  -- a block of the window that walks the list of all replicas is enough
  have hblock {block : List Pick} (hb : block <:+: window) (hblen : block.length = urls.length)
      (hwide : ∀ c ∈ block, σ.breakerEnabled = true → c.retry = false) :
      ∃ c ∈ window, c.url = u := by
    have hlinked := List.IsChain.infix hchain hb
    obtain ⟨c, hc, hcu⟩ := covers_of_wide hnodup hlinked (fun c hc ↦ hmem c (hb.subset hc)) hwide
      hblen hu
    exact ⟨c, hb.subset hc, hcu⟩
  by_cases hσ : σ.breakerEnabled = true
  · rcases h with hoff | htwo | hfew
    · rw [hσ] at hoff
      cases hoff
    · exact covers_of_le_two hnodup hσ htwo hchain hmem hlen hu
    · rw [Nat.pow_two] at hlen
      obtain ⟨a, b, c, hsplit, hblen, hfree⟩ := exists_block Pick.retry urls.length window hlen hfew
      exact hblock ⟨a, c, hsplit.symm⟩ hblen fun d hd _ ↦ hfree d hd
  · have htake : window.take urls.length <:+: window :=
      ⟨[], window.drop urls.length, List.take_append_drop _ _⟩
    refine hblock htake ?_ fun _ _ h ↦ absurd h hσ
    rw [List.length_take, hlen, Nat.pow_two]
    exact Nat.min_eq_left (Nat.le_mul_self _)

end Windows

/-- Nothing has been picked. -/
theorem Linked.start (hurls : s.pool.urls = urls) (hlast : s.last = none)
    (hpicked : s.picked = []) : Linked σ urls s where
  replicas := hurls
  chain := by
    rw [hpicked]
    exact .nil
  mem := by
    rw [hpicked]
    intro a ha
    exact absurd ha List.not_mem_nil
  counter := by
    rw [hpicked]
    intro a ha
    cases ha
  last := by
    rw [hlast]
    intro u hu
    cases hu

/-! ## A retry at every turn of one replica -/

section Starving

variable {x y z : Str} {rest : List Str} {hne : urls ≠ []} {last : Option Str}
  {picked : List Pick} {n : ℕ}

/-- A pool whose replicas have no breaker yet, with this counter. -/
def untried (urls : List Str) (hne : urls ≠ []) (next : ℕ) : UpstreamPool := ⟨urls, hne, next, []⟩

theorem allClosed_untried : AllClosed ⟨untried urls hne n, last, picked⟩ := fun _ _ ↦ rfl

/-- A first attempt at the replica that is next. -/
theorem rotates_first {u : Str} (hu : urls[(n + 1) % urls.length]? = some u) :
    Rotates σ ⟨untried urls hne n, last, picked⟩ [.first 0]
      ⟨untried urls hne ((n + 1) % urls.length), some u, picked ++ [⟨false, u⟩]⟩ := by
  obtain ⟨v, hv, hpick⟩ := @UpstreamPool.pick_next σ (untried urls hne n) none 0
    (@allClosed_untried urls hne last picked n) fun _ ↦ rfl
  obtain rfl : u = v := Option.some.inj (hu.symm.trans hv)
  refine .single ⟨?_, allClosed_untried⟩
  simp only [Steps, step, turn, hpick]
  rfl

/-- First attempts from the second replica on: none of them is at the second. -/
theorem rotates_firsts (hnodup : urls.Nodup) (hy : urls[1]? = some y) (last : Option Str)
    (picked : List Pick) : ∀ k, k + 1 < urls.length → ∃ last' turns calls,
      Rotates σ ⟨untried urls hne 1, last, picked⟩ calls
        ⟨untried urls hne (k + 1), last', picked ++ turns⟩ ∧
      turns.length = k ∧ turns.countP Pick.retry = 0 ∧ ∀ a ∈ turns, a.url ≠ y := by
  intro k
  induction k with
  | zero =>
      intro _
      refine ⟨last, [], [], ?_, rfl, rfl, fun a ha ↦ absurd ha List.not_mem_nil⟩
      rw [List.append_nil]
      exact .nil _
  | succ k ih =>
      intro hk
      obtain ⟨last', turns, calls, hrun, hlen, hcount, havoid⟩ := ih (by omega)
      obtain ⟨u, hu⟩ : ∃ u, urls[k + 1 + 1]? = some u := ⟨_, List.getElem?_eq_getElem hk⟩
      have huy : u ≠ y := by
        rintro rfl
        have := (List.getElem?_inj hk hnodup).mp (hu.trans hy.symm)
        omega
      have hnext : (k + 1 + 1) % urls.length = k + 1 + 1 := Nat.mod_eq_of_lt hk
      have hfirst := @rotates_first σ urls hne last' (picked ++ turns) (k + 1) u
        (by rw [hnext]; exact hu)
      rw [hnext, List.append_assoc] at hfirst
      refine ⟨some u, turns ++ [⟨false, u⟩], calls ++ [.first 0], hrun.append hfirst, ?_, ?_, ?_⟩
      · rw [List.length_append, hlen]
        rfl
      · rw [List.countP_append, hcount]
        rfl
      · intro a ha
        rcases List.mem_append.mp ha with ha | ha
        · exact havoid a ha
        · obtain rfl := List.mem_singleton.mp ha
          exact huy

/-- The retry of an attempt at the first of at least three replicas goes to the third, and takes
the counter to the second. -/
theorem rotates_retry (hnodup : (x :: y :: z :: rest).Nodup) (hσ : σ.breakerEnabled = true)
    {hne : x :: y :: z :: rest ≠ []} :
    Rotates σ ⟨untried (x :: y :: z :: rest) hne 0, some x, picked⟩ [.retry 0]
      ⟨untried (x :: y :: z :: rest) hne 1, none, picked ++ [⟨true, z⟩]⟩ := by
  have hcand : (untried (x :: y :: z :: rest) hne 0).candidates (some x) = y :: z :: rest := by
    have hx : x ∉ y :: z :: rest := (List.nodup_cons.mp hnodup).1
    have hothers : (y :: z :: rest).filter (fun u ↦ some u ≠ some x) = y :: z :: rest := by
      refine List.filter_eq_self.mpr fun u hu ↦ ?_
      rw [decide_eq_true_eq]
      intro h
      exact hx (Option.some.inj h ▸ hu)
    have hclosed : (untried (x :: y :: z :: rest) hne 0).closed = x :: y :: z :: rest :=
      List.filter_eq_self.mpr fun _ _ ↦ rfl
    rcases (untried (x :: y :: z :: rest) hne 0).candidates_cases (some x) with
      ⟨hall, -⟩ | ⟨-, hc⟩
    · rw [hclosed] at hall
      have hy := Option.some.inj (hall y (List.mem_cons_of_mem _ List.mem_cons_self))
      rw [hy] at hx
      exact absurd List.mem_cons_self hx
    · rw [hc, hclosed, List.filter_cons_of_neg (by simp), hothers]
  have hpick : (untried (x :: y :: z :: rest) hne 0).pick σ (some x) 0 =
      (.ok z, untried (x :: y :: z :: rest) hne 1) := by
    have hone : (0 + 1) % (y :: z :: rest).length = 1 := Nat.mod_eq_of_lt (by simp)
    rw [UpstreamPool.pick_of_candidates hσ hcand]
    change (Except.ok ((y :: z :: rest).getD ((0 + 1) % (y :: z :: rest).length) y),
      untried (x :: y :: z :: rest) hne ((0 + 1) % (y :: z :: rest).length)) = _
    rw [hone]
    rfl
  refine .single ⟨?_, allClosed_untried⟩
  simp only [Steps, step, Option.bind_some, turn, hpick]
  rfl

/-- Once around: every replica but the second, and one retry. -/
theorem rotates_round (hnodup : (x :: y :: z :: rest).Nodup) (hσ : σ.breakerEnabled = true)
    {hne : x :: y :: z :: rest ≠ []} (last : Option Str) (picked : List Pick) : ∃ turns calls,
      Rotates σ ⟨untried (x :: y :: z :: rest) hne 1, last, picked⟩ calls
        ⟨untried (x :: y :: z :: rest) hne 1, none, picked ++ turns⟩ ∧
      turns.length = (x :: y :: z :: rest).length ∧ turns.countP Pick.retry = 1 ∧
      ∀ a ∈ turns, a.url ≠ y := by
  have hxy : x ≠ y := by
    rintro rfl
    exact (List.nodup_cons.mp hnodup).1 List.mem_cons_self
  have hzy : z ≠ y := by
    rintro rfl
    exact (List.nodup_cons.mp (List.nodup_cons.mp hnodup).2).1 List.mem_cons_self
  obtain ⟨last', turns, calls, hrun, hlen, hcount, havoid⟩ :=
    @rotates_firsts σ _ y hne hnodup rfl last picked (rest.length + 1) (Nat.lt_succ_self _)
  have hwrap : (rest.length + 1 + 1 + 1) % (x :: y :: z :: rest).length = 0 := Nat.mod_self _
  have hfirst := @rotates_first σ _ hne last' (picked ++ turns) (rest.length + 1 + 1) x
    (by rw [hwrap]; rfl)
  rw [hwrap] at hfirst
  refine ⟨turns ++ [⟨false, x⟩] ++ [⟨true, z⟩], calls ++ [.first 0] ++ [.retry 0], ?_, ?_, ?_, ?_⟩
  · rw [← List.append_assoc, ← List.append_assoc]
    exact (hrun.append hfirst).append (rotates_retry hnodup hσ)
  · simp [hlen]
  · simp [List.countP_append, hcount]
  · intro a ha
    simp only [List.mem_append, List.mem_singleton] at ha
    rcases ha with (ha | rfl) | rfl
    · exact havoid a ha
    · exact hxy
    · exact hzy

/-- Any number of times around. -/
theorem rotates_rounds (hnodup : (x :: y :: z :: rest).Nodup) (hσ : σ.breakerEnabled = true)
    {hne : x :: y :: z :: rest ≠ []} : ∀ m, ∃ turns calls,
      Rotates σ ⟨untried (x :: y :: z :: rest) hne 1, none, []⟩ calls
        ⟨untried (x :: y :: z :: rest) hne 1, none, turns⟩ ∧
      turns.length = m * (x :: y :: z :: rest).length ∧ turns.countP Pick.retry = m ∧
      ∀ a ∈ turns, a.url ≠ y := by
  intro m
  induction m with
  | zero =>
      refine ⟨[], [], .nil _, ?_, rfl, fun a ha ↦ absurd ha List.not_mem_nil⟩
      exact (Nat.zero_mul _).symm
  | succ m ih =>
      obtain ⟨turns, calls, hrun, hlen, hcount, havoid⟩ := ih
      obtain ⟨turns', calls', hrun', hlen', hcount', havoid'⟩ :=
        @rotates_round σ x y z rest hnodup hσ hne none turns
      refine ⟨turns ++ turns', calls ++ calls', hrun.append hrun', ?_, ?_, ?_⟩
      · rw [List.length_append, hlen, hlen', Nat.succ_mul]
      · rw [List.countP_append, hcount, hcount']
      · intro a ha
        rcases List.mem_append.mp ha with ha | ha
        · exact havoid a ha
        · exact havoid' a ha

/-- With the breaker on and at least three replicas, a condition that lets through `n ^ 2` picks
of which `n` are retries does not make windows choose every replica. -/
theorem not_covers {P : List Pick → Prop} (hnodup : urls.Nodup) (hσ : σ.breakerEnabled = true)
    (hthree : 2 < urls.length)
    (hP : ∀ window, window.countP Pick.retry = urls.length → P window) : ¬Covers σ urls P := by
  match urls, hthree with
  | x :: y :: z :: rest, _ =>
      obtain ⟨turns, calls, hrun, hlen, hcount, havoid⟩ :=
        @rotates_rounds σ x y z rest hnodup hσ (List.cons_ne_nil _ _) (x :: y :: z :: rest).length
      intro hcovers
      obtain ⟨a, ha, hay⟩ := hcovers _ _ calls rfl rfl rfl hrun [] turns [] (List.append_nil _).symm
        (by rw [hlen, Nat.pow_two]) (hP turns hcount) y (List.mem_cons_of_mem _ List.mem_cons_self)
      exact havoid a ha hay

end Starving

/-! ## When round-robin starves nobody -/

/-- **Every window of `n ^ 2` picks chooses all `n` replicas** exactly if the breaker is off, or
there are at most two replicas.  With more, it is the retries that matter: if at most `r` of the
picks in a window are retries, the window chooses every replica exactly if `r` is less than the
number of replicas. -/
theorem covers_iff (σ : Settings) (urls : List Str) (hnodup : urls.Nodup) :
    (Covers σ urls (fun _ ↦ True) ↔ σ.breakerEnabled = false ∨ urls.length ≤ 2) ∧
    ∀ r, Covers σ urls (fun window ↦ window.countP Pick.retry ≤ r) ↔
      σ.breakerEnabled = false ∨ urls.length ≤ 2 ∨ r < urls.length := by
  constructor
  · constructor
    · intro hcovers
      by_contra hnot
      obtain ⟨hσ, hthree⟩ := not_or.mp hnot
      exact not_covers hnodup (by simpa using hσ) (not_le.mp hthree) (fun _ _ ↦ trivial) hcovers
    · intro h s t calls hurls hlast hpicked hrun before window after hsplit hlen _ u hu
      refine ((Linked.start hurls hlast hpicked).run hnodup hrun).covers hnodup hsplit hlen ?_ hu
      exact h.imp_right .inl
  · intro r
    constructor
    · intro hcovers
      by_contra hnot
      obtain ⟨hσ, hnot⟩ := not_or.mp hnot
      obtain ⟨hthree, hr⟩ := not_or.mp hnot
      exact not_covers hnodup (by simpa using hσ) (not_le.mp hthree)
        (fun _ h ↦ h.trans_le (not_lt.mp hr)) hcovers
    · intro h s t calls hurls hlast hpicked hrun before window after hsplit hlen hr u hu
      refine ((Linked.start hurls hlast hpicked).run hnodup hrun).covers hnodup hsplit hlen ?_ hu
      exact h.imp_right (Or.imp_right hr.trans_lt)

/-- Two replicas. -/
theorem covers_iff_two : Covers .default [str "a", str "b"] (fun _ ↦ True) :=
  (covers_iff .default [str "a", str "b"] (by decide)).1.mpr (.inr (by decide))

/-- Five first attempts that are answered with 429, and a retry of each but the last. -/
def refusedRounds : List PoolCall :=
  (List.replicate 4 [.first 0, .record (str "b") (.ok { statusCode := 429 }) 0, .retry 0,
    .record (str "a") (.ok { statusCode := 200 }) 0]).flatten ++ [.first 0]

/-- Three replicas, the counter at the first: first attempts go to the second, their retries to the
first, and of nine picks none is at the third. -/
theorem not_covers_three : ¬Covers .default [str "a", str "b", str "c"] (fun _ ↦ True) := by
  obtain ⟨t, hrun, ht⟩ := Run.exists_of_execWhile (step .default)
    (fun s _ ↦ s.pool.urls.all fun u ↦ (s.pool.breaker u).state = .closed)
    ⟨untried [str "a", str "b", str "c"] (List.cons_ne_nil _ _) 0, none, []⟩ refusedRounds
    (fun t ↦ t.picked.length = 9 && t.picked.all fun a ↦ a.url ≠ str "c") (by decide +kernel)
  simp only [Bool.and_eq_true, decide_eq_true_eq, List.all_eq_true] at ht
  obtain ⟨hlen, havoid⟩ := ht
  have hrotates : Rotates .default _ refusedRounds t := hrun.mono fun h ↦ ⟨h.1, fun u hu ↦
    of_decide_eq_true (List.all_eq_true.mp h.2 u hu)⟩
  intro hcovers
  obtain ⟨a, ha, hac⟩ := hcovers _ t refusedRounds rfl rfl rfl hrotates [] t.picked []
    (List.append_nil _).symm hlen trivial (str "c")
    (List.mem_cons_of_mem _ (List.mem_cons_of_mem _ List.mem_cons_self))
  exact havoid a ha hac

end Rotation

end InferenceGateway
