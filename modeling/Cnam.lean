import Cnam.Lib.Assoc
import Cnam.Lib.Html
import Cnam.Php.Urldecode
import Cnam.Oracle.Queries
import Cnam.Yahd.Instances
import Cnam.Yahd.RoundTrip
import Cnam.Yahd.LastID
import Cnam.Yahd.FailedSave
import Cnam.Yahd.AppList
import Cnam.Yahd.Confirmations
import Cnam.Yahd.FormRules
import Cnam.Yahd.PrintedRow
import Cnam.Yahd.Attachments
import Cnam.Yahd.LaxisteLoginController
import Cnam.Yahd.UrlArgs
import Cnam.Yahd.AppendedArg
import Cnam.Yahd.Decoded
import Cnam.Yahd.Redirect
import Cnam.Yahd.Resume
import Cnam.Yahd.ExcludedNames
import Cnam.Yahd.FirstPages
import Cnam.Agence.Prices
import Cnam.Agence.UpdateOrder
import Cnam.Agence.ActivityCount
import Cnam.Agence.Overbooking
import Cnam.Agence.Refusals
import Cnam.Agence.Discounts
import Cnam.Agence.Queries
import Cnam.Httpd.ShmcbInit
import Cnam.Httpd.ShmcbLasting
import Cnam.Httpd.ShmcbBounds
import Cnam.Yahd.Sessions
import Cnam.Yahd.Concurrent
import Cnam.Httpd.ChunkRoundTrip
import Cnam.Httpd.FdqueueSafety
import Cnam.Httpd.ByrequestsShares
import Cnam.Httpd.StrcmpMatch
import Cnam.Httpd.EscapeQuotes
