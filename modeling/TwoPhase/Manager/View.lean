/-
# What an administrator sees

`Manager.snapshot` shows the manager as it is. With the name of a resource it
shows only the resources of that name and the transactions they are involved
in.

Key definitions: `Manager.snapshot`, `Manager.configurationRequest`.
-/
import TwoPhase.Manager.State

namespace TwoPhase

def Instance.view (i : Instance) : InstanceView :=
  ⟨i.process, i.state, i.inFlight, i.metrics⟩

def Resource.view (r : Resource) : ResourceView where
  id := r.id
  key := r.config.key
  name := r.config.name
  openinfo := r.config.openinfo
  closeinfo := r.config.closeinfo
  concurrency := r.config.instances
  instances := r.instances.map Instance.view
  metrics := r.totalMetrics
  pending := r.waiting.length

def Transaction.view (t : Transaction) : TransactionView where
  trid := t.trid
  owner := t.owner
  stage := t.stage
  prepared := t.prepared
  branches := t.branches.map fun b => ⟨b.trid, b.resources.toList⟩
  started := t.started

namespace Manager

/-- The manager at this point in time, of all or of the resources of one name. -/
def snapshot (m : Manager) (name : Option String) : Snapshot :=
  let resources := m.registry.resources.filter fun r => name.all fun name => r.config.name = name
  let selected := resources.map (·.id)
  let transactions := m.transactions.values.filter fun t =>
    name.isNone || t.branches.any fun b => b.resources.toList.any fun id => selected.contains id
  { transactions := transactions.map Transaction.view
    resources := resources.map Resource.view
    externals := m.registry.externals
    persistentReplies := m.held.replies.length
    persistentRequests := m.held.deferred.length
    coordinating := m.coordinators.waiting
    journal := m.journal.statistics
    inDoubt := m.journal.inDoubt }

/-- An administrator asks for a snapshot. -/
def configurationRequest (r : ConfigurationRequest) : Act Unit := do
  let m ← get
  send r.process (.configurationReply ⟨m.process, r.correlation, m.snapshot r.resourceName⟩)

end Manager

end TwoPhase
