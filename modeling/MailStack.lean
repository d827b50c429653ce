import MailStack.Auth.Keys
import MailStack.Auth.RawRecords
import MailStack.Imap.AuthThrottle
import MailStack.Imap.FlagUpdates
import MailStack.Imap.Isolation
import MailStack.Imap.ListPatterns
import MailStack.Imap.PartNumbers
import MailStack.Imap.ReadOnly
import MailStack.Imap.Reading
import MailStack.Imap.SavedResult
import MailStack.Imap.Search
import MailStack.Imap.SectionLabels
import MailStack.Imap.SectionSplit
import MailStack.Imap.Thread
import MailStack.Lmtp.Agreement
import MailStack.Maildir.MigrationUids
import MailStack.Maildir.UidStability
import MailStack.Mailstackd.Config
import MailStack.ManageSieve.Stream
import MailStack.Mime.CivilDates
import MailStack.Pop3.Transfer
import MailStack.Priv.ConcurrentCreation
import MailStack.Priv.SettingsSet
import MailStack.Queue.Circuit
import MailStack.Queue.DirectDelivery
import MailStack.Queue.DsnParts
import MailStack.Queue.DueEntries
import MailStack.Queue.Reservation
import MailStack.Queue.Retries
import MailStack.Sieve.Glob
import MailStack.Sieve.OneCopy
import MailStack.Sieve.ReservedNames
import MailStack.Sieve.ScriptStoreKept
import MailStack.Sieve.VacationLimit
import MailStack.Smtp.Mx
import MailStack.Smtpd.AuthResults
import MailStack.Smtpd.BanKept
import MailStack.Smtpd.EnvelopePaths
import MailStack.Smtpd.RateLimit
import MailStack.Smtpd.RelaySafety
import MailStack.Smtpd.Segmentation
import MailStack.Smtpd.Terminator
import MailStack.Tables.TablesKept
import MailStack.Web.LockoutKept
import MailStack.Webmail.Batch
import MailStack.Webmail.ComposedHeaders
import MailStack.Webmail.EncodedValues
import MailStack.Webmail.Encoders
import MailStack.Webmail.SanitizeBalanced
import MailStack.Webmail.SanitizeDropped
import MailStack.Webmail.SanitizeIdempotent
import MailStack.Webmail.SessionRevocation
