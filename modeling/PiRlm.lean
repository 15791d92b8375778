import PiRlm.Core.BudgetRuns
import PiRlm.Core.JournalStatusOrder
import PiRlm.Core.SchemaValidation
import PiRlm.Extension.RunCoordinatorRuns
import PiRlm.Runtime.AgentDelegationRuns
import PiRlm.Runtime.CheckpointStoreSound
import PiRlm.Runtime.ContentJson
import PiRlm.Runtime.FinalizeRuns
import PiRlm.Runtime.KeyBindingRuns
import PiRlm.Runtime.ProviderJournal
import PiRlm.Runtime.RecurseUsage
import PiRlm.Runtime.RunDirectoryRuns
import PiRlm.Runtime.RunInspectionManaged
import PiRlm.Runtime.RunRetentionPolicy
import PiRlm.Runtime.RunWriterQuarantineRuns
import PiRlm.Runtime.Semaphore
import PiRlm.Runtime.WriterSchedulerRuns
import PiRlm.Shell.ContextChunks
import PiRlm.Shell.ContextGrep
import PiRlm.Shell.ContextLines
import PiRlm.Shell.DelegationClientRuns
import PiRlm.Shell.JournalRuns
