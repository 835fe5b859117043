import Mathlib.Tactic

/-!
# Values that are written later

A client keeps a value of a remote party: what it believes the value to be (`cached`), and a change that it has not sent yet
(`queued`). A change is sent only if it is not the cached value (`due`). `wanted` is the last value that was asked for; no
operation reads it.

`Cell.Ok` : the cached value is the remote one, and so is the wanted one unless it is queued. It holds only while the
connection is up.
-/

namespace TSpider.Lib

structure Cell (α : Type*) where
  remote : α
  cached : Option α
  queued : Option α
  wanted : Option α

namespace Cell
variable {α : Type*}

def queue (c : Cell α) (v : α) : Cell α := { c with queued := some v, wanted := some v }

def due [DecidableEq α] (c : Cell α) : Option α := c.queued.filter fun v => c.cached ≠ some v

def set (c : Cell α) (v : α) : Cell α := { c with remote := v }

def settle (c : Cell α) : Cell α := { c with cached := c.queued.or c.cached, queued := none }

def connect (c : Cell α) (remote : α) (assumed : Option α) : Cell α := { c with remote := remote, cached := assumed }

def clear (c : Cell α) : Cell α := { c with queued := none, wanted := none }

/-- What is queued is wanted; while the connection is up, cached values and wanted ones not queued are the remote ones. -/
structure Ok (up : Prop) (c : Cell α) : Prop where
  queued : ∀ v, c.queued = some v → c.wanted = some v
  cached : up → ∀ v, c.cached = some v → c.remote = v
  wanted : up → c.queued = none → ∀ v, c.wanted = some v → c.remote = v

namespace Ok
variable {up up' : Prop} {c : Cell α}

theorem mono (h : c.Ok up) (hup : up' → up) : c.Ok up' := ⟨h.queued, fun hu => h.cached (hup hu), fun hu => h.wanted (hup hu)⟩

theorem queue (h : c.Ok up) (v : α) : (c.queue v).Ok up :=
  ⟨fun _ hu => hu, h.cached, fun _ hq => by simp [Cell.queue] at hq⟩

theorem of_not (hup : ¬ up) (hqueued : ∀ v, c.queued = some v → c.wanted = some v) : c.Ok up :=
  ⟨hqueued, fun hu => absurd hu hup, fun hu => absurd hu hup⟩

theorem clear (h : c.Ok up) : c.clear.Ok up := ⟨by simp [Cell.clear], h.cached, by simp [Cell.clear]⟩

theorem connect (h : c.Ok up) {remote : α} {assumed : Option α} (hassumed : ∀ v, assumed = some v → remote = v)
    (hwanted : c.queued = none → c.wanted = none) : (c.connect remote assumed).Ok up' :=
  ⟨h.queued, fun _ => hassumed, fun _ hq v hv => by simp [Cell.connect, hwanted hq] at hv⟩

theorem settle [DecidableEq α] (h : c.Ok up) : (Cell.settle { c with remote := c.due.getD c.remote }).Ok up := by
  have hsent : up → ∀ v, c.queued = some v → c.due.getD c.remote = v := by
    intro hup v hv
    by_cases hcached : c.cached = some v
    · simp [Cell.due, hv, hcached, Option.filter_some, h.cached hup v hcached]
    · simp [Cell.due, hv, hcached, Option.filter_some]
  refine ⟨by simp [Cell.settle], fun hup v hv => ?_, fun hup _ v hv => ?_⟩
  · cases hq : c.queued with
    | none =>
      have hdue : c.due = none := by simp [Cell.due, hq]
      simp only [Cell.settle, hq, Option.none_or] at hv
      simpa [Cell.settle, hdue] using h.cached hup v hv
    | some u =>
      obtain rfl : u = v := by simpa [Cell.settle, hq] using hv
      exact hsent hup u hq
  · cases hq : c.queued with
    | none =>
      have hdue : c.due = none := by simp [Cell.due, hq]
      simpa [Cell.settle, hdue] using h.wanted hup hq v hv
    | some u =>
      obtain rfl : u = v := Option.some.inj ((h.queued u hq).symm.trans hv)
      exact hsent hup u hq

end Ok

end Cell

end TSpider.Lib
