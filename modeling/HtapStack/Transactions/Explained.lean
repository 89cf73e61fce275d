import HtapStack.Transactions.Session
import HtapStack.Transactions.Clearance
/-!
# Verdicts

An Accord transaction does not say whether its `IF` held. The routes work it out
from the row it returns, with a reason function of their own for each statement,
and report `applied` when the reason is empty. `reasons_explain`: on every state
of the tables the two agree.
-/

namespace HtapStack.Explained
open Cql

/-- For each statement, whatever it is bound to and whatever the tables hold. -/
theorem reasons_explain :
    (∀ user session seq row db, ∀ t ∈ bound (Session.applyCql seq) (Session.applyParams user session seq row),
      t.ExplainedBy db (Session.reason seq)) ∧
    (∀ zone entity grantedAt l, ∀ t ∈ bound Clearance.grantCql (Clearance.grantParams zone entity grantedAt),
      t.ExplainedBy l (Clearance.grantReason zone entity)) ∧
    ∀ zone entity l, ∀ t ∈ bound Clearance.releaseCql (Clearance.releaseParams zone entity),
      t.ExplainedBy l (Clearance.releaseReason zone entity) := by
  refine ⟨fun user session seq row db t ht => ?_, fun zone entity grantedAt l t ht => ?_,
    fun zone entity l t ht => ?_⟩
  · rw [Session.bound_apply] at ht
    split at ht
    · obtain rfl := Option.some.inj ht
      exact Txn.explainedBy_of_iff (Session.reason_apply.trans Session.applies_apply.symm)
    · cases ht
  · obtain rfl := Option.some.inj ((Clearance.bound_grant zone entity grantedAt).symm.trans ht)
    exact Txn.explainedBy_of_iff (Clearance.grantReason_empty.trans Clearance.applies_grant.symm)
  · obtain rfl := Option.some.inj ((Clearance.bound_release zone entity).symm.trans ht)
    exact Txn.explainedBy_of_iff (Clearance.releaseReason_empty.trans Clearance.applies_release.symm)

/-- A zone with an asset inside. -/
def occupied : Clearance.Ledger :=
  (Clearance.grantTxn "zone-oslo-airport" "asset-000000" 0).commit
    (Clearance.insertOccupancy ⟨"zone-oslo-airport", "Oslo Lufthavn Gardermoen", "critical", 2⟩ Clearance.empty)

/-- An open session with its first event. -/
def begun : Session.Db :=
  (Session.applyTxn "user-1" 7 0 ⟨8, 0, "login", "{}"⟩).commit
    { Session.empty with sessionsOpen := Session.empty.sessionsOpen.insert ("user-1", 7) () }

/-- The event again, the asset again, and the asset's release. -/
theorem reasons_explain_again :
    ((Session.applyTxn "user-1" 7 0 ⟨8, 0, "login", "{}"⟩).ExplainedBy begun (Session.reason 0) ∧
      Session.reason 0 ((Session.applyTxn "user-1" 7 0 ⟨8, 0, "login", "{}"⟩).projection begun) =
        "seq=0 was already applied, so the replay changed nothing") ∧
    ((Clearance.grantTxn "zone-oslo-airport" "asset-000000" 1).ExplainedBy occupied
        (Clearance.grantReason "zone-oslo-airport" "asset-000000") ∧
      Clearance.grantReason "zone-oslo-airport" "asset-000000"
          ((Clearance.grantTxn "zone-oslo-airport" "asset-000000" 1).projection occupied) =
        "asset-000000 already holds a clearance into zone-oslo-airport") ∧
    (Clearance.releaseTxn "zone-oslo-airport" "asset-000000").ExplainedBy occupied
        (Clearance.releaseReason "zone-oslo-airport" "asset-000000") ∧
      Clearance.releaseReason "zone-oslo-airport" "asset-000000"
          ((Clearance.releaseTxn "zone-oslo-airport" "asset-000000").projection occupied) = "" := by
  obtain ⟨happly, hgrant, hrelease⟩ := reasons_explain
  refine ⟨⟨happly "user-1" 7 0 ⟨8, 0, "login", "{}"⟩ begun _ rfl, by decide +kernel⟩, ⟨?_, by decide +kernel⟩, ?_,
    by decide +kernel⟩
  · exact hgrant "zone-oslo-airport" "asset-000000" 1 occupied _ rfl
  · exact hrelease "zone-oslo-airport" "asset-000000" occupied _ rfl

end HtapStack.Explained
