import GroupAssessmentAgent.Jobs.StatusRace
import GroupAssessmentAgent.Outbox.SentStays
import GroupAssessmentAgent.Outbox.TwoFlushers
import GroupAssessmentAgent.Auth.SenderIdentity
import GroupAssessmentAgent.Auth.Verdicts
import GroupAssessmentAgent.Mail.Fetch
import GroupAssessmentAgent.Pipeline.OwnerMessage
import GroupAssessmentAgent.Pipeline.Conclusions
import GroupAssessmentAgent.Pipeline.OneJob
import GroupAssessmentAgent.Pipeline.Deferral
import GroupAssessmentAgent.Commands.JobReference
import GroupAssessmentAgent.Pipeline.Ownership
import GroupAssessmentAgent.Pipeline.Observation
import GroupAssessmentAgent.Pipeline.Strangers
import GroupAssessmentAgent.Jobs.Numbering
import GroupAssessmentAgent.Jobs.JobIdFormat
import GroupAssessmentAgent.Reports.OneMail
import GroupAssessmentAgent.Jobs.Crashes
import GroupAssessmentAgent.Jobs.Questions
import GroupAssessmentAgent.Jobs.Submission
import GroupAssessmentAgent.Jobs.SubmissionEnds
import GroupAssessmentAgent.Jobs.Assessment
import GroupAssessmentAgent.Reports.Identity
import GroupAssessmentAgent.Jobs.GroupQuestion
import GroupAssessmentAgent.Jobs.GroupAnswer
import GroupAssessmentAgent.Jobs.RepliedJobs
import GroupAssessmentAgent.Jobs.LostAnswers
import GroupAssessmentAgent.Jobs.FilesKept
import GroupAssessmentAgent.Outbox.Threads
import GroupAssessmentAgent.Outbox.Attempts
import GroupAssessmentAgent.Pipeline.LedgerHistory
import GroupAssessmentAgent.Jobs.TimeColumns
import GroupAssessmentAgent.Commands.AttachmentChoice
import GroupAssessmentAgent.Vtt.RoundTrip
import GroupAssessmentAgent.Vtt.Accounting
import GroupAssessmentAgent.Reports.Replacement
import GroupAssessmentAgent.Jobs.Isolation
import GroupAssessmentAgent.Mail.References
import GroupAssessmentAgent.Mail.FakeClient
import GroupAssessmentAgent.Admin.AlertRate
import GroupAssessmentAgent.Jobs.CreationOrder
import GroupAssessmentAgent.Outbox.TwoBooks
import GroupAssessmentAgent.Weekly.Periods
import GroupAssessmentAgent.Service.FailClosed
import GroupAssessmentAgent.Jobs.RowStore
import GroupAssessmentAgent.Jobs.Uploads
import GroupAssessmentAgent.Jobs.Drained
import GroupAssessmentAgent.Lib.Credits
import GroupAssessmentAgent.Pipeline.Costs
import GroupAssessmentAgent.Service.Expenses
