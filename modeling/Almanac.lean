import Almanac.Time.SpanText
import Almanac.Time.Instant
import Almanac.Time.InstantText
import Almanac.Time.IsoReader
import Almanac.Plan
import Almanac.Time.Clock
import Almanac.Number.Binary64
import Almanac.Json.Reader
import Almanac.Json.Printer
import Almanac.Json.Shape
import Almanac.Net.Address
import Almanac.Url.Reader
import Almanac.Task.Order
import Almanac.Entry
import Almanac.Plan.Json
import Almanac.Log
import Almanac.Roster
import Almanac.Alarm
import Almanac.Remote.Fetch
import Almanac.Remote.Restart
import Almanac.Timetable.Settle
import Almanac.Timetable.Service
import Almanac.Timetable.Conduct
import Almanac.Web.Router
import Almanac.Toml.Reader
import Almanac.Settings.Load
import Almanac.Startup
import Almanac.Main
import Almanac.Proofs.Settling
import Almanac.Proofs.LiveVigil
import Almanac.Proofs.Accounting
import Almanac.Proofs.Stopping
import Almanac.Proofs.Readings
import Almanac.Proofs.Undisturbed
import Almanac.Proofs.Course
import Almanac.Proofs.FiringTimes
import Almanac.Proofs.Refusals
import Almanac.Proofs.Grants
import Almanac.Proofs.Handles
import Almanac.Proofs.Listing
import Almanac.Proofs.Lost
import Almanac.Proofs.Orphans
import Almanac.Proofs.Readiness
import Almanac.Proofs.Steady
import Almanac.Proofs.Scenes
import Almanac.Proofs.Confluence
import Almanac.Proofs.Beginners
import Almanac.Proofs.Solos
import Almanac.Proofs.Strides
import Almanac.Proofs.Cues
import Almanac.Proofs.Beats
import Almanac.Proofs.Tending
import Almanac.Proofs.Independence
import Almanac.Proofs.Gate
import Almanac.Proofs.Visits
import Almanac.Proofs.Answers
import Almanac.Proofs.Overflow
import Almanac.Proofs.Breaks
import Almanac.Proofs.Elders
import Almanac.Proofs.Spoiled
import Almanac.Proofs.Credentials
import Almanac.Proofs.Descriptions
import Almanac.Proofs.Pauses
import Almanac.Proofs.Restoring
import Almanac.Proofs.Forms
import Almanac.Proofs.RunningOut
import Almanac.Proofs.Unfailing
import Almanac.Proofs.Orders
import Almanac.Proofs.Addresses
import Almanac.Proofs.Precedence
import Almanac.Proofs.JsonForms
import Almanac.Proofs.Draws
