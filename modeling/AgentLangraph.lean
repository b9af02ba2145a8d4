import AgentLangraph.Context.Termination
import AgentLangraph.Context.Conservation
import AgentLangraph.Context.Order
import AgentLangraph.Context.Required
import AgentLangraph.Run.Handles
import AgentLangraph.Run.Foreground
import AgentLangraph.Graph.Router
import AgentLangraph.Budget.Ledger
import AgentLangraph.Quota.Admission
import AgentLangraph.Llm.Wedge
import AgentLangraph.Llm.Failures
import AgentLangraph.Queue.Claim
import AgentLangraph.Run.TurnReset
import AgentLangraph.Events.Resume
import AgentLangraph.Events.Sequence
import AgentLangraph.Events.SideChannel
import AgentLangraph.Stream.ArtifactStream
import AgentLangraph.Session.Review
import AgentLangraph.Session.Draft
import AgentLangraph.Run.Messages
import AgentLangraph.Artifact.Stale
import AgentLangraph.Artifact.EditHonesty
import AgentLangraph.Artifact.Reads
import AgentLangraph.Artifact.Chapters
import AgentLangraph.Graph.Pending
import AgentLangraph.Batch.Runner
import AgentLangraph.Knowledge.Catalog
import AgentLangraph.Knowledge.Isolation
import AgentLangraph.Knowledge.Cache
import AgentLangraph.Evidence.Shadow
import AgentLangraph.Evidence.Admitted
import AgentLangraph.Checkpoint.RoundTrip
import AgentLangraph.Stream.Answer
import AgentLangraph.Guard.Agreement
import AgentLangraph.Session.Settled
import AgentLangraph.Run.Fresh
import AgentLangraph.Tool.Guarded
import AgentLangraph.Tool.Confinement
import AgentLangraph.Plan.Binding
import AgentLangraph.Plan.Executed
import AgentLangraph.Session.Deletion
import AgentLangraph.Replan.Pending
import AgentLangraph.Access.RoleBinding
import AgentLangraph.Access.Isolation
import AgentLangraph.Run.Pool
import AgentLangraph.Run.Allowance
import AgentLangraph.Artifact.Bounds
import AgentLangraph.Run.Conversation
import AgentLangraph.Skill.Store
import AgentLangraph.Skill.Policy
import AgentLangraph.Memory.Store
import AgentLangraph.Session.Purge
import AgentLangraph.Tenant.Storage
import AgentLangraph.Artifact.Precision
import AgentLangraph.Artifact.FuzzySpan
import AgentLangraph.Tool.Dag
import AgentLangraph.Tool.Commit
import AgentLangraph.Agenda.Failure
import AgentLangraph.Agenda.Progress
import AgentLangraph.Checkpoint.Resume
import AgentLangraph.Chat.Writing
import AgentLangraph.Chat.FinalAnswer
import AgentLangraph.Knowledge.ChunkBounds
import AgentLangraph.Llm.StreamText
import AgentLangraph.Artifact.Growth
import AgentLangraph.Artifact.ChapterCount
import AgentLangraph.Artifact.OutlineNumber
import AgentLangraph.Context.Dedupe
import AgentLangraph.Context.TruncateBound
import AgentLangraph.Artifact.WriteHonesty
import AgentLangraph.Tool.PassStatus
import AgentLangraph.Llm.ExtractJson
import AgentLangraph.Evidence.Diversity
import AgentLangraph.Knowledge.RoundTrip
import AgentLangraph.Artifact.Verify
import AgentLangraph.Guard.Policy
import AgentLangraph.Evidence.Grounding
import AgentLangraph.Evidence.Conflicts
import AgentLangraph.Guard.Sanitizer
import AgentLangraph.Run.Engineering
import AgentLangraph.Evidence.Spans
import AgentLangraph.Artifact.Fixups
import AgentLangraph.Knowledge.Listing
import AgentLangraph.Llm.Interactions
import AgentLangraph.Quota.RateLimit
import AgentLangraph.Queue.Aging
import AgentLangraph.Session.RmPreview
import AgentLangraph.Queue.DeadLetter
import AgentLangraph.Session.FieldAccess
import AgentLangraph.Graph.Gate
import AgentLangraph.Supervisor.Workers
