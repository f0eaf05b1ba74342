import Kindred.AiWallet.Concurrent
import Kindred.Billing.RefundWebhooks
import Kindred.Billing.FullRefunds
import Kindred.Billing.Upgrades
import Kindred.Billing.RunRefunds
import Kindred.Billing.SavedCards
import Kindred.Billing.Spending
import Kindred.Billing.Locks.Agreement
import Kindred.Billing.Locks.Announced
import Kindred.Rest.Aliases
import Kindred.Rest.Binding
import Kindred.ChatRouting.Concurrent
import Kindred.Email.Superseding
import Kindred.Jobs.Queue
import Kindred.MemoCache
import Kindred.Realtime.FailoverEngine
import Kindred.Inactivity.NeedsReply
import Kindred.Inactivity.Undo
import Kindred.Entitlement.Lossless
import Kindred.Entitlement.GivingUp
import Kindred.Deletion.Emptiness
import Kindred.Deletion.Fencing
import Kindred.Deletion.WriteLeases
import Kindred.Callbacks.Offering
import Kindred.Calls.Queue
import Kindred.Monitoring.RuleOrder
import Kindred.Widget.Unproven
import Kindred.Storage.Counters
import Kindred.Storage.ProviderPool
import Kindred.Commerce.Catalogue
import Kindred.Invitations.TwoLinks
import Kindred.AiBilling.Charges
import Kindred.AiBilling.Budget
import Kindred.Conversations.Rereading
import Kindred.Rest.Printing
import Kindred.Net.Buckets
import Kindred.ChatRouting.Rotation
import Kindred.Cache.Answers
import Kindred.Verification.Windows
import Kindred.Verification.Phone
import Kindred.Crawler.Sitemaps
import Kindred.Crawler.Robots
import Kindred.Crawler.CanonicalUrls
import Kindred.Archives.Zip
