import InferenceGateway.Config

/-!
# The audit log

`gateway/audit.py`.  A line of the file is the record it was written from.  What
can keep a record out of the file, the file itself being writable: `asdict` and
`json.dumps` give up on a value nested too deeply, and that exception escapes; a
line with a lone surrogate cannot be encoded as UTF-8, and that exception is
caught and logged.
-/

namespace InferenceGateway

open Py

/-- `AuditRecord`.  The model and the token counts are whatever JSON value the
caller or the upstream sent. -/
structure AuditRecord where
  timestamp : ℚ
  event : String
  keyid : Option Str
  subject : Str
  authMethod : String
  model : Value
  status : Nat
  latencyMs : ℚ
  promptTokens : Value
  completionTokens : Value
  upstream : Option Str
  reason : Option String
  streamed : Bool

namespace AuditRecord

/-- The nesting of the deepest field. -/
def depth (r : AuditRecord) : Nat :=
  max r.model.depth (max r.promptTokens.depth r.completionTokens.depth)

/-- UTF-8 can encode the line. -/
def encodable (r : AuditRecord) : Bool :=
  r.keyid.all Py.encodable && Py.encodable r.subject && r.model.encodable &&
    r.promptTokens.encodable && r.completionTokens.encodable && r.upstream.all Py.encodable

/-- What `AuditLog.write` appends for this record. -/
def Writable (rt : Runtime) (r : AuditRecord) : Prop := r.depth ≤ rt.dumpsDepth ∧ r.encodable

instance (rt : Runtime) (r : AuditRecord) : Decidable (r.Writable rt) :=
  inferInstanceAs (Decidable (_ ∧ _))

end AuditRecord

/-- `AuditLog.write`, on the lines of the file. -/
def auditWrite (rt : Runtime) (log : List AuditRecord) (r : AuditRecord) :
    Except Exc (List AuditRecord) :=
  if rt.dumpsDepth < r.depth then .error .recursionError
  else if r.encodable then .ok (log ++ [r])
  else .ok log

variable {rt : Runtime} {log log' : List AuditRecord} {r : AuditRecord}

/-- A writable record is appended. -/
theorem auditWrite_of_writable (h : r.Writable rt) : auditWrite rt log r = .ok (log ++ [r]) := by
  rw [auditWrite, if_neg (not_lt.mpr h.1), if_pos h.2]

/-- A record that is not writable leaves the file as it is. -/
theorem auditWrite_of_not_writable (log : List AuditRecord) (h : ¬r.Writable rt) :
    auditWrite rt log r = .ok log ∨ auditWrite rt log r = .error .recursionError := by
  unfold auditWrite
  split
  · exact .inr rfl
  · rename_i hd
    split
    · rename_i he
      exact absurd ⟨not_lt.mp hd, he⟩ h
    · exact .inl rfl

/-- What a write that returns has appended. -/
theorem auditWrite_ok (h : auditWrite rt log r = .ok log') :
    log'.length = log.length + (decide (r.Writable rt)).toNat := by
  by_cases hw : r.Writable rt
  · rw [auditWrite_of_writable hw] at h
    cases h
    simp [hw]
  · rcases auditWrite_of_not_writable log hw with hl | hl
    · rw [hl] at h
      cases h
      simp [hw]
    · rw [hl] at h
      cases h

/-- A write that raises has appended nothing, and would not have. -/
theorem auditWrite_error {e : Exc} (h : auditWrite rt log r = .error e) : ¬r.Writable rt := by
  intro hw
  rw [auditWrite_of_writable hw] at h
  cases h

end InferenceGateway
