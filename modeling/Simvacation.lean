import Simvacation.SenderTags
import Simvacation.BulkMail
import Simvacation.Collection
import Simvacation.RecipientMatch
import Simvacation.CapturedFields
import Simvacation.AutoSubmitted
import Simvacation.Threading
import Simvacation.SenderForms
import Simvacation.SystemSenders
import Simvacation.Folding
import Simvacation.ResponderLoop
import Simvacation.NullSenders
import Simvacation.RetrySafety
import Simvacation.Intervals
import Simvacation.Concurrent
import Simvacation.Reforwarding
import Simvacation.Records
import Simvacation.BodyIndependence
import Simvacation.Collisions
import Simvacation.StoreKeys
import Simvacation.LookupFilters
import Simvacation.DisplayNames
import Simvacation.MailerCommand
import Simvacation.AutoreplyWindow
import Simvacation.Forgetting
import Simvacation.LookupHandle
import Simvacation.Probe
import Simvacation.LineEnds
import Simvacation.YaslRuns
import Simvacation.YaslGrowth
import Simvacation.YaslValues
import Simvacation.MailNetwork
import Simvacation.LmdbRaces
import Simvacation.EmbeddedConfig
import Simvacation.PipeEnds
import Simvacation.RedisRaces
import Simvacation.RecordExpiry
