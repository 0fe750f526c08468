import ClawEngine.Core.Pool
import ClawEngine.Core.Dict
import ClawEngine.Runtime.Contracts
import ClawEngine.Laws.EventStreams
import ClawEngine.Persistence.Lawful
import ClawEngine.Laws.StoreEquivalence
import ClawEngine.Orchestration.Conversation
import ClawEngine.Laws.Conversation
import ClawEngine.Laws.SessionRace
import ClawEngine.Laws.HandleTrace
import ClawEngine.Laws.Delivery
import ClawEngine.Laws.Rounds
import ClawEngine.Laws.Recording
import ClawEngine.Laws.Secrets
import ClawEngine.Laws.RunVisibility
import ClawEngine.Laws.Provisioning
import ClawEngine.Laws.RunLifecycle
import ClawEngine.Workflows.Updates
import ClawEngine.Laws.RunRace
import ClawEngine.Laws.ToolGates
import ClawEngine.Channels.Webhook
import ClawEngine.Identity.Memory
import ClawEngine.Laws.Mediation
import ClawEngine.Laws.Isolation
import ClawEngine.Laws.SecretPaths
import ClawEngine.Laws.TurnTrace
import ClawEngine.Laws.Replies
import ClawEngine.Laws.Watchdog
import ClawEngine.Laws.CommandLine
import ClawEngine.Laws.TokenSecrecy
import ClawEngine.Laws.ResumeHandle
import ClawEngine.Laws.SessionIdentity
import ClawEngine.Laws.ConversationsApart
import ClawEngine.Laws.CheckoutContainment
import ClawEngine.Laws.Denials
import ClawEngine.Laws.SharedParams
import ClawEngine.Laws.RefreshHistory
import ClawEngine.Laws.ExactRevocation
import ClawEngine.Laws.Confinement
import ClawEngine.Laws.FailedRuns
import ClawEngine.Laws.ThreadWidth
import ClawEngine.Laws.RoundLimit
import ClawEngine.Laws.Narration
import ClawEngine.Laws.CodexStream
import ClawEngine.Laws.ClaudeStream
import ClawEngine.Laws.EventTypes
import ClawEngine.Laws.SkillTrees
import ClawEngine.Laws.ManifestTolerance
import ClawEngine.Laws.HandlerStops
import ClawEngine.Laws.MarkedMessages
import ClawEngine.Laws.OpenersRace
import ClawEngine.Laws.LazyEngine
import ClawEngine.Laws.ConstructedNames
import ClawEngine.Laws.SecretAnswers
import ClawEngine.Laws.SecretUrls
import ClawEngine.Laws.InboundSignatures
import ClawEngine.Laws.RefInForce
import ClawEngine.Laws.Materialized
import ClawEngine.Laws.InboundParsing
import ClawEngine.Laws.ThreadKeys
import ClawEngine.Laws.LexicalConfinement
import ClawEngine.Laws.SpanRendering
import ClawEngine.Laws.SpanAgreement
import ClawEngine.Laws.ReusedCache
import ClawEngine.Laws.UserEntries
import ClawEngine.Laws.ForgottenSkills
import ClawEngine.Laws.ConversationsInParallel
import ClawEngine.Laws.RunsInParallel
import ClawEngine.Laws.AtomicStore
import ClawEngine.Laws.Redelivery
import ClawEngine.Laws.TracedTurns
import ClawEngine.Laws.Retries
import ClawEngine.Laws.SkillProvenance
