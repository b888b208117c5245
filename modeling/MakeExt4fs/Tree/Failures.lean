import MakeExt4fs.Tree.BlockList

namespace MakeExt4fs

open Interrupt ErrorLog

def sparseImage (args : MakeArgs) (host : MakeHost) : Option SparseFile :=
  match makeImage args host with
  | .error _ => none
  | .ok (info, t) => sparseFileOf host.place info t.fs.sparse

def Out.failed (out : Out) : Prop := ∃ op ∈ out.ops, op.2 = true

-- Whatever operation fails, sparse_file_write and make_ext4fs_internal say so.
structure FailuresReported (args : MakeArgs) (host : MakeHost) : Prop where
  write : ∀ s ret out, sparseImage args host = some s →
    sparseFileWrite host.output s (Out.start s args.gzip args.sparse args.crc) = (.ok ret, out) →
    out.failed → ret ≠ 0
  make : ∀ code out, makeExt4fsInternal args host = some (code, some out) → out.failed → code ≠ 0

section Reports

variable {args : MakeArgs} {host : MakeHost} {code : Nat} {out : Out}

theorem writeExt4Image_run {h : Host} {s : SparseFile} {start : Out}
    (hrun : writeExt4Image h s start = (.ok (), out)) :
    ∃ ret, sparseFileWrite h s start = (.ok ret, out) := by
  rw [writeExt4Image, Act.bind_run] at hrun
  rcases hw : sparseFileWrite h s start with ⟨e | ret, out'⟩
  · rw [hw] at hrun
    cases hrun
  · rw [hw] at hrun
    cases hrun
    exact ⟨ret, rfl⟩

theorem makeExt4fsInternal_run (h : makeExt4fsInternal args host = some (code, some out)) :
    code = 0 ∧ ∃ s ret, sparseImage args host = some s ∧
      sparseFileWrite host.output s (Out.start s args.gzip args.sparse args.crc) =
        (.ok ret, out) := by
  rw [makeExt4fsInternal] at h
  rcases hmake : makeImage args host with e | ⟨info, t⟩
  · rw [hmake] at h
    cases e <;> simp at h
  · simp only [hmake] at h
    split at h
    · rcases hs : sparseFileOf host.place info t.fs.sparse with _ | s
      · simp [hs] at h
      · simp only [hs, Option.bind_eq_bind, Option.bind_some] at h
        split at h
        · rename_i hrun
          obtain ⟨ret, hret⟩ := writeExt4Image_run hrun
          simp only [Option.some.injEq, Prod.mk.injEq] at h
          obtain ⟨rfl, rfl⟩ := h
          exact ⟨rfl, s, ret, by simp [sparseImage, hmake, hs], hret⟩
        · cases h
    · cases h

theorem failuresReported_iff (h : makeExt4fsInternal args host = some (code, some out)) :
    FailuresReported args host ↔ ∀ op ∈ out.ops, op.2 = false := by
  obtain ⟨hcode, s, ret, hs, hret⟩ := makeExt4fsInternal_run h
  constructor
  · intro hreported op hop
    by_contra hop2
    exact hreported.make code out h ⟨op, hop, by simpa using hop2⟩ hcode
  · intro hnone
    have hnot : ¬ out.failed := by
      rintro ⟨op, hop, hfail⟩
      rw [hnone op hop] at hfail
      cases hfail
    refine ⟨fun s' ret' out' hs' hret' hfailed => ?_, fun code' out' h' hfailed => ?_⟩
    · cases hs.symm.trans hs'
      cases hret.symm.trans hret'
      exact absurd hfailed hnot
    · cases h.symm.trans h'
      exact absurd hfailed hnot

end Reports

section Example

def plainArgs : MakeArgs := { oneFileArgs with blockListFile := false }

def failingHost (n : Nat) : MakeHost :=
  { oneFileHost with output := { oneFileHost.output with
    fault := fun k => if k = n then some 28 else none } }

def makeSummary (args : MakeArgs) (host : MakeHost) : Option (Nat × Option Bool) :=
  (makeExt4fsInternal args host).map fun p => (p.1, p.2.map fun out => out.ops.any Prod.snd)

theorem of_makeSummary {args : MakeArgs} {host : MakeHost} {code : Nat} {failed : Bool}
    (h : makeSummary args host = some (code, some failed)) :
    ∃ out, makeExt4fsInternal args host = some (code, some out) ∧
      out.ops.any Prod.snd = failed := by
  rcases hrun : makeExt4fsInternal args host with _ | ⟨code', _ | out⟩
  · simp [makeSummary, hrun] at h
  · simp [makeSummary, hrun] at h
  · simp only [makeSummary, hrun, Option.map_some, Option.some.injEq, Prod.mk.injEq] at h
    obtain ⟨rfl, hfailed⟩ := h
    exact ⟨out, rfl, hfailed⟩

theorem failuresReported_iff_plain : ∃ out,
    makeExt4fsInternal plainArgs oneFileHost = some (0, some out) ∧
      (FailuresReported plainArgs oneFileHost ↔ ∀ op ∈ out.ops, op.2 = false) := by
  have hrun : makeSummary plainArgs oneFileHost = some (0, some false) := by decide +kernel
  obtain ⟨out, h, -⟩ := of_makeSummary hrun
  exact ⟨out, h, failuresReported_iff h⟩

-- The ftruncate at the end fails, and the image is shorter than it should be.
theorem truncate_failure_lost : ¬ FailuresReported plainArgs (failingHost 14) := by
  intro hreported
  have hrun : makeSummary plainArgs (failingHost 14) = some (0, some true) := by decide +kernel
  obtain ⟨out, h, hany⟩ := of_makeSummary hrun
  exact hreported.make 0 out h (List.any_eq_true.mp hany) rfl

end Example

end MakeExt4fs
